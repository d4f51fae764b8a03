import Mathlib.Algebra.Order.Group.Int
import Mathlib.Algebra.Order.Group.Nat
import Mathlib.Data.List.Basic

/-! # Reading files batch by batch

A tensor on disk is a list of files of record batches. The reader fills every batch from the open
file and the files after it; it asks a file for the missing rows, the number of which is
converted to a signed integer. -/
namespace Scql.DiskBatches

open List

variable {α : Type}

/-- `FileBatchReader::ReadNext` on the record batches of a file that were not read yet. -/
def readNext : List (List α) → ℤ → List α × List (List α)
  | [], _ => ([], [])
  | batch::rest, numToRead =>
    if numToRead ≤ 0 then ([], batch::rest)
    else if batch.length ≤ numToRead then
      let read := readNext rest (numToRead-batch.length)
      (batch ++ read.1, read.2)
    else (batch.take numToRead.toNat, batch.drop numToRead.toNat::rest)

/-- A reader without an open file is like one at the end of its file. -/
structure DiskTensorBatchReader (α : Type) where
  offset : ℕ
  current : List (List α)
  files : List (List (List α))

/-- The conversion of a `size_t` to `int64_t`. -/
def toInt64 (n : ℕ) : ℤ := if n < 2^63 then n else n-2^64

namespace DiskTensorBatchReader

/-- `FreshReader`: empty files are skipped. -/
def freshReader (r : DiskTensorBatchReader α) : Option (DiskTensorBatchReader α) :=
  match r.files.dropWhile (·.flatten.isEmpty) with
  | [] => none
  | file::files => some {r with current := file, files}

/-- The reader whose file is read next. -/
def opened (r : DiskTensorBatchReader α) : Option (DiskTensorBatchReader α) :=
  if r.current = [] then r.freshReader else some r

def read (r : DiskTensorBatchReader α) (numToRead : ℕ) : List α :=
  (readNext r.current (toInt64 numToRead)).1

def afterRead (r : DiskTensorBatchReader α) (numToRead : ℕ) : DiskTensorBatchReader α :=
  {r with
    current := (readNext r.current (toInt64 numToRead)).2
    offset := r.offset+(r.read numToRead).length}

/-- The loop of `Next`: the arrays it collects and the reader at its end. -/
inductive Reads : DiskTensorBatchReader α → ℕ → List (List α) → DiskTensorBatchReader α → Prop
  | done (r) : Reads r 0 [] r
  | noFile {r n} (hn : n ≠ 0) (h : r.opened = none) : Reads r n [] r
  | array {r r' r'' n arrays} (hn : n ≠ 0) (h : r.opened = some r')
      (hrest : Reads (r'.afterRead n) (n-(r'.read n).length) arrays r'') :
      Reads r n (r'.read n::arrays) r''

/-- `Next` on a tensor of `length` rows; no batch is the null pointer. -/
inductive Next (batchSize length : ℕ) :
    DiskTensorBatchReader α → Option (List α) → DiskTensorBatchReader α → Prop
  | atEnd {r} (h : length ≤ r.offset) : Next batchSize length r none r
  | nothing {r r'} (h : r.offset < length) (hr : Reads r batchSize [] r') :
      Next batchSize length r none r'
  | batch {r r' a arrays} (h : r.offset < length) (hr : Reads r batchSize (a::arrays) r') :
      Next batchSize length r (some (a::arrays).flatten) r'

/-- What successive calls of `Next` return. -/
def Calls (batchSize length : ℕ) : DiskTensorBatchReader α → List (Option (List α)) → Prop
  | _, [] => True
  | r, out::outs => ∃ r', Next batchSize length r out r' ∧ Calls batchSize length r' outs

def left (r : DiskTensorBatchReader α) : List α := r.current.flatten ++ r.files.flatten.flatten

end DiskTensorBatchReader

open DiskTensorBatchReader

def rows (files : List (List (List α))) : List α := files.flatten.flatten

/-- The calls return full batches of all rows in order, the last one may be shorter, and then the
null pointer. -/
def Delivers (files : List (List (List α))) (batchSize : ℕ) : Prop :=
  ∃ batches : List (List α), batches.flatten = rows files ∧ [] ∉ batches ∧
    (∀ batch ∈ batches.dropLast, batch.length = batchSize) ∧
      (∀ batch ∈ batches, batch.length ≤ batchSize) ∧
    ∀ k, Calls batchSize (rows files).length ⟨0, [], files⟩ (batches.map some ++ replicate k none)

lemma readNext_split (batches : List (List α)) (n : ℕ) :
  batches.flatten = (readNext batches n).1 ++ (readNext batches n).2.flatten ∧
    (readNext batches n).1.length ≤ n ∧
    (n ≤ (readNext batches n).1.length ∨ (readNext batches n).2 = []) := by
  induction batches generalizing n with
  | nil => simp [readNext]
  | cons batch rest ih =>
    rw [readNext]
    split_ifs with hzero hle
    · obtain rfl : n = 0 := by omega
      simp
    · have hle : batch.length ≤ n := by omega
      obtain ⟨hsplit, hlen, hend⟩ := ih (n-batch.length)
      rw [Int.natCast_sub hle] at hsplit hlen hend
      dsimp only
      rw [flatten_cons, append_assoc, ← hsplit, length_append]
      exact ⟨rfl, by omega, hend.imp_left fun h => by omega⟩
    · have hlt : n < batch.length := by omega
      simp [← append_assoc, hlt.le]

lemma flatten_dropWhile (files : List (List (List α))) :
  (files.dropWhile (·.flatten.isEmpty)).flatten.flatten = files.flatten.flatten := by
  induction files with
  | nil => rfl
  | cons file files ih =>
    rw [dropWhile_cons]
    split
    · next h => rw [ih, flatten_cons, flatten_append, isEmpty_iff.mp h, nil_append]
    · rfl

variable {r r' : DiskTensorBatchReader α} {n : ℕ}

/-- The steps of the loop that are left: one for every file, and one for an open file. -/
def work (r : DiskTensorBatchReader α) : ℕ := r.files.length+if r.current = [] then 0 else 1

lemma opened_none (h : r.opened = none) : r.left = [] := by
  rw [opened] at h
  split at h
  · next hcur =>
    rw [freshReader] at h
    split at h
    · next hfiles => rw [left, hcur, ← flatten_dropWhile, hfiles]; rfl
    · cases h
  · cases h

lemma opened_some (h : r.opened = some r') : r'.left = r.left ∧ r'.offset = r.offset ∧
  r'.current ≠ [] ∧ r'.files.length < work r := by
  rw [opened] at h
  split at h
  · next hcur =>
    rw [freshReader] at h
    split at h
    · cases h
    · next file files hfiles =>
      cases h
      have hlen := (dropWhile_sublist (l := r.files) (·.flatten.isEmpty)).length_le
      have hhead := head_dropWhile_not (fun file : List (List α) => file.flatten.isEmpty)
        (l := r.files) (by simp [hfiles])
      refine ⟨?_, rfl, ?_, ?_⟩
      · rw [left, left, hcur, ← flatten_dropWhile r.files, hfiles, flatten_cons, flatten_append]
        rfl
      · rintro rfl
        simp [hfiles] at hhead
      · rw [hfiles, length_cons] at hlen
        rw [work]
        exact Nat.lt_add_right _ hlen
  · next hcur =>
    cases h
    exact ⟨rfl, rfl, hcur, by rw [work, if_neg hcur]; exact Nat.lt_succ_self _⟩

lemma reads_exact (hn : n < 2^63) : ∃ arrays r', Reads r n arrays r' ∧
    arrays.flatten = r.left.take n ∧
  r'.left = r.left.drop n ∧ r'.offset = r.offset+arrays.flatten.length := by
  induction hw : n+work r using Nat.strong_induction_on generalizing r n with
  | _ w ih =>
    subst hw
    rcases Nat.eq_zero_or_pos n with rfl | hpos
    · exact ⟨[], r, .done r, rfl, rfl, rfl⟩
    cases hopen : r.opened with
    | none =>
      have hleft := opened_none hopen
      exact ⟨[], r, .noFile hpos.ne' hopen, by simp [hleft], by simp [hleft], rfl⟩
    | some r₁ =>
      obtain ⟨hleft, hoffset, hcur, hfiles⟩ := opened_some hopen
      obtain ⟨hsplit, hlen, hend⟩ := readNext_split r₁.current n
      rw [← show toInt64 n = n from if_pos hn] at hsplit hlen hend
      have hlen : (r₁.read n).length ≤ n := hlen
      have hrest : r.left = r₁.read n ++ (r₁.afterRead n).left := by
        rw [← hleft, left, hsplit, append_assoc]
        rfl
      -- a file that is not at its end has filled the batch
      have hwork : n-(r₁.read n).length+work (r₁.afterRead n) < n+work r := by
        rw [work]
        split
        · exact Nat.add_lt_add_of_le_of_lt (Nat.sub_le _ _) hfiles
        · next hmore =>
          have hfull : n ≤ (r₁.read n).length := hend.resolve_right hmore
          rw [Nat.sub_eq_zero_of_le hfull]
          exact Nat.add_lt_add_of_lt_of_le hpos hfiles
      obtain ⟨arrays, r', hreads, hflat, hleft', hoffset'⟩ := ih _ hwork (by omega) rfl
      refine ⟨_, r', .array hpos.ne' hopen hreads, ?_, ?_, ?_⟩
      · rw [hrest, take_append, take_of_length_le hlen, flatten_cons, hflat]
      · rw [hrest, drop_append, drop_of_length_le hlen, nil_append, hleft']
      · rw [hoffset', afterRead, hoffset, flatten_cons, length_append, Nat.add_assoc]

/-- The loop does not end if the missing rows do not fit into the signed integer. -/
lemma not_reads {arrays : List (List α)} (h : Reads r n arrays r') (hlo : 2^63 ≤ n)
    (hhi : n < 2^64) :
  r.left = [] := by
  induction h with
  | done => omega
  | noFile _ hopen => exact opened_none hopen
  | @array r r₁ r₂ n arrays _ hopen _ ih =>
    obtain ⟨hleft, -, hcur, -⟩ := opened_some hopen
    have hnone : readNext r₁.current (toInt64 n) = ([], r₁.current) := by
      obtain ⟨batch, rest, hcons⟩ := exists_cons_of_ne_nil hcur
      rw [hcons, readNext, if_pos (by rw [toInt64, if_neg (by omega)]; omega)]
    have hread : r₁.read n = [] := congrArg Prod.fst hnone
    have hafter : (r₁.afterRead n).left = r₁.left := by
      rw [left, left, afterRead, hnone]
    rw [← hleft, ← hafter]
    exact ih (by rw [hread]; exact hlo) (by rw [hread]; exact hhi)

variable {b length : ℕ}

/-- A call of `Next` while rows are left. -/
lemma next_exact (hb : 0 < b) (hb' : b < 2^63) (hr : r.offset+r.left.length = length)
    (hleft : r.left ≠ []) :
  ∃ r', Next b length r (some (r.left.take b)) r' ∧ r'.left = r.left.drop b ∧
    r'.offset+r'.left.length = length := by
  obtain ⟨arrays, r', hreads, hflat, hdrop, hoffset⟩ := reads_exact (r := r) hb'
  have hpos := length_pos_iff.mpr hleft
  refine ⟨r', ?_, hdrop, ?_⟩
  · rw [← hflat]
    cases arrays with
    | nil =>
      have hzero := congrArg List.length hflat
      rw [flatten_nil, length_nil, length_take] at hzero
      omega
    | cons a arrays => exact .batch (by omega) hreads
  · rw [hoffset, hdrop, hflat, length_take, length_drop]
    omega

lemma calls_none (h : length ≤ r.offset) (k : ℕ) : Calls b length r (replicate k none) := by
  induction k with
  | zero => trivial
  | succ k ih => exact ⟨r, .atEnd h, ih⟩

lemma calls_exact (hb : 0 < b) (hb' : b < 2^63) (hr : r.offset+r.left.length = length) :
  ∃ batches : List (List α), batches.flatten = r.left ∧ [] ∉ batches ∧
    (∀ batch ∈ batches.dropLast, batch.length = b) ∧ (∀ batch ∈ batches, batch.length ≤ b) ∧
    ∀ k, Calls b length r (batches.map some ++ replicate k none) := by
  induction hn : r.left.length using Nat.strong_induction_on generalizing r with
  | _ n ih =>
    subst hn
    by_cases hleft : r.left = []
    · refine ⟨[], hleft.symm, not_mem_nil, by simp, by simp, calls_none ?_⟩
      rw [hleft] at hr
      exact hr.ge
    · obtain ⟨r', hnext, hdrop, hr'⟩ := next_exact hb hb' hr hleft
      have hpos := length_pos_iff.mpr hleft
      obtain ⟨batches, hflat, hne, hfull, hle, hcalls⟩ := ih r'.left.length
        (by rw [hdrop, length_drop]; omega) hr' rfl
      refine ⟨r.left.take b::batches, ?_, ?_, ?_, ?_, fun k => ⟨r', hnext, hcalls k⟩⟩
      · rw [flatten_cons, hflat, hdrop, take_append_drop]
      · rw [mem_cons, not_or]
        exact ⟨by simp [hb.ne', hleft], hne⟩
      · intro batch hbatch
        cases batches with
        | nil => cases hbatch
        | cons c batches =>
          rcases mem_cons.mp hbatch with rfl | hbatch
          · have hc : 0 < c.length := length_pos_iff.mpr fun h => hne (h ▸ mem_cons_self)
            have hlen := congrArg List.length hflat
            rw [hdrop, flatten_cons, length_append, length_drop] at hlen
            rw [length_take]
            omega
          · exact hfull batch hbatch
      · exact forall_mem_cons.mpr ⟨length_take_le _ _, hle⟩

lemma not_delivers {files : List (List (List α))} (hrows : rows files ≠ []) (hb : b = 0 ∨ 2^63 ≤ b)
  (hb' : b < 2^64) : ¬Delivers files b := by
  rintro ⟨batches, hflat, -, -, -, hcalls⟩
  cases batches with
  | nil => exact hrows hflat.symm
  | cons batch batches =>
    obtain ⟨r', hnext, -⟩ := hcalls 0
    cases hnext with
    | batch _ hreads =>
      rcases hb with rfl | hb
      · cases hreads with
        | array hn => exact hn rfl
      · exact hrows (not_reads hreads hb hb')

/-- A reader with rows delivers them exactly if its batch size is positive and fits into the signed
integer. -/
theorem delivers_iff (files : List (List (List α))) (batchSize : Fin (2^64)) :
  Delivers files batchSize ↔ rows files = [] ∨ 0 < batchSize.val ∧ batchSize.val < 2^63 := by
  constructor
  · intro h
    by_contra hnot
    rw [not_or] at hnot
    exact not_delivers hnot.1 (by omega) batchSize.isLt h
  · rintro (hrows | ⟨hb, hb'⟩)
    · exact ⟨[], hrows.symm,
        not_mem_nil, by simp, by simp, calls_none (by rw [hrows]; exact Nat.zero_le _)⟩
    · exact calls_exact (r := ⟨0, [], files⟩) hb hb' (Nat.zero_add _)

theorem not_delivers_defaultSize : ¬Delivers [[[1, 2], [3]]] (2^64-1) :=
  not_delivers (by decide) (.inr (by decide)) (by decide)

end Scql.DiskBatches
