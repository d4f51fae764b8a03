import Mathlib.Data.List.Induction
import Mathlib.Data.Rat.Floor

/-! # Texts of composite keys

Before private set intersection or bucketing, every key column is turned into texts and the
columns are folded into one text per row with commas in between. The private set intersection
refuses columns with nulls, the bucketing does not. -/
namespace Scql.KeyEncoding

open List

abbrev Text := List Char

inductive ElemType
  | int | bool | float | string
  deriving DecidableEq

/-- A value that is not null. Floating point numbers stand for themselves as rationals, so that
there is no negative zero, no infinity and none that is not a number; dates and times are kept as
integers. -/
inductive Value
  | int (v : ℤ)
  | bool (b : Bool)
  | float (q : ℚ)
  | string (s : Text)
  deriving DecidableEq

def Value.type : Value → ElemType
  | int _ => .int
  | bool _ => .bool
  | float _ => .float
  | string _ => .string

def intText (v : ℤ) : Text :=
  if v < 0 then '-' :: Nat.toDigits 10 v.natAbs else Nat.toDigits 10 v.natAbs

def roundEven (x : ℚ) : ℤ :=
  let r := x - ⌊x⌋
  if r < 1/2 then ⌊x⌋ else if 1/2 < r then ⌊x⌋ + 1 else if ⌊x⌋ % 2 = 0 then ⌊x⌋ else ⌊x⌋ + 1

def sixDigits (n : ℕ) : Text := (range 6).map (fun i => (n/10^(5-i)%10).digitChar)

/-- `std::to_string` of a floating point number: six decimals. -/
def floatText (q : ℚ) : Text :=
  let n := (roundEven (|q| * 10^6)).toNat
  (if q < 0 then ['-'] else []) ++ Nat.toDigits 10 (n/10^6) ++ '.' :: sixDigits (n%10^6)

def valueText : Value → Text
  | .int v => intText v
  | .bool b => if b then "true".toList else "false".toList
  | .float q => floatText q
  | .string s => s

def nullText : Text := "null".toList

/-- A cell of a key column as `StringifyVisitor` writes it. -/
def stringify : Option Value → Text
  | none => nullText
  | some v => valueText v

/-- `Combine`: two columns of texts, row by row. -/
def combine (col1 col2 : List Text) : List Text := zipWith (fun a b => a ++ ',' :: b) col1 col2

/-- The items `ReadNextBatch` makes of the columns; columns of different sizes are refused. -/
def combinedKeys : List (List Text) → Option (List Text)
  | [] => some []
  | col::cols => cols.foldlM
      (fun keys col => if keys.length = col.length then some (combine keys col) else none) col

def rowItem : List Text → Text
  | [] => []
  | t::ts => ts.foldl (fun item t => item ++ ',' :: t) t

/-- The columns of a table of rows with `n` values each. -/
def columns (n : ℕ) (rows : List (List Text)) : List (List Text) :=
  (range n).map (fun j => rows.map (fun r => r.getD j []))

lemma foldlM_combine (rows : List (List Text)) (f : List Text → Text) (js : List ℕ) :
  (js.map (fun j => rows.map (fun r => r.getD j []))).foldlM
    (fun keys col => if keys.length = col.length then some (combine keys col) else none)
      (rows.map f)
  = some (rows.map (fun r => js.foldl (fun item j => item ++ ',' :: r.getD j []) (f r))) := by
  induction js generalizing f with
  | nil => rfl
  | cons j js ih =>
    rw [map_cons, foldlM_cons, if_pos (by simp)]
    have hstep : combine (rows.map f) (rows.map (fun r => r.getD j []))
        = rows.map (fun r => f r ++ ',' :: r.getD j []) := by
      rw [combine, zipWith_map, zipWith_self]
    rw [hstep]
    exact ih _

variable {n : ℕ}

lemma combinedKeys_columns {rows : List (List Text)} (hn : 0 < n)
  (hrows : ∀ r ∈ rows, r.length = n) : combinedKeys (columns n rows) = some (rows.map rowItem) := by
  obtain ⟨m, rfl⟩ : ∃ m, n = m+1 := ⟨n-1, by omega⟩
  rw [columns, range_succ_eq_map, map_cons, combinedKeys, foldlM_combine]
  refine congrArg some (map_congr_left (fun r hr => ?_))
  have hlen := hrows r hr
  cases r with
  | nil => simp at hlen
  | cons t ts =>
    have hts : ts = (range m).map (fun j => ts.getD j []) := by
      refine ext_getElem (by simpa using hlen) (fun j h₁ h₂ => ?_)
      simp [h₁]
    rw [rowItem, foldl_map]
    conv_rhs => rw [hts, foldl_map]
    rfl

/-- The part of an item after its first text. -/
def tailText (ts : List Text) : Text := ts.flatMap (fun t => ',' :: t)

lemma foldl_item (t : Text) (ts : List Text) :
  ts.foldl (fun item t => item ++ ',' :: t) t = t ++ tailText ts := by
  induction ts generalizing t with
  | nil => simp [tailText]
  | cons u ts ih => rw [foldl_cons, ih, tailText, tailText, flatMap_cons, append_assoc]

lemma rowItem_cons (t : Text) (ts : List Text) : rowItem (t::ts) = t ++ tailText ts :=
  foldl_item t ts

lemma tailText_nil : tailText [] = [] := rfl

@[simp] lemma tailText_cons (t : Text) (ts : List Text) :
  tailText (t::ts) = ',' :: (t ++ tailText ts) := rfl

@[simp] lemma tailText_append (ts us : List Text) :
    tailText (ts ++ us) = tailText ts ++ tailText us := by
  rw [tailText, flatMap_append]
  rfl

variable {t u x y : Text}

lemma peel_left (ht : ',' ∉ t) (hu : ',' ∉ u) (h : t ++ ',' :: x = u ++ ',' :: y) :
  t = u ∧ x = y := by
  induction t generalizing u with
  | nil =>
    cases u with
    | nil => simpa using h
    | cons c u =>
      simp only [nil_append, cons_append, cons.injEq] at h
      exact absurd (by simp [← h.1]) hu
  | cons c t ih =>
    cases u with
    | nil =>
      simp only [nil_append, cons_append, cons.injEq] at h
      exact absurd (by simp [h.1]) ht
    | cons d u =>
      simp only [cons_append, cons.injEq] at h
      simp only [mem_cons, not_or] at ht hu
      obtain ⟨rfl, rfl⟩ := ih ht.2 hu.2 h.2
      exact ⟨by rw [h.1], rfl⟩

lemma peel_right (ht : ',' ∉ t) (hu : ',' ∉ u) (h : x ++ ',' :: t = y ++ ',' :: u) :
    x = y ∧ t = u := by
  have hrev : t.reverse ++ ',' :: x.reverse = u.reverse ++ ',' :: y.reverse := by
    simpa using congrArg List.reverse h
  obtain ⟨htu, hxy⟩ := peel_left (by simpa using ht) (by simpa using hu) hrev
  exact ⟨reverse_injective hxy, reverse_injective htu⟩

variable {ts us : List Text}

lemma peel_tail (hlen : ts.length = us.length)
  (hts : ∀ x ∈ ts, ',' ∉ x) (hus : ∀ x ∈ us, ',' ∉ x) (h : t ++ tailText ts = u ++ tailText us) :
    t = u ∧ ts = us := by
  induction ts using reverseRecOn generalizing us with
  | nil =>
    obtain rfl := length_eq_zero_iff.mp hlen.symm
    simpa using h
  | append_singleton ts a ih =>
    cases us using reverseRecOn with
    | nil => simp at hlen
    | append_singleton us b =>
      simp only [tailText_append, tailText_cons, tailText_nil, append_nil, ← append_assoc] at h
      obtain ⟨hinit, rfl⟩ := peel_right (hts a (by simp)) (hus b (by simp)) h
      obtain ⟨rfl, rfl⟩ := ih (by simpa using hlen) (fun x hx => hts x (by simp [hx]))
        (fun x hx => hus x (by simp [hx])) hinit
      exact ⟨rfl, rfl⟩

/-- A text fits a column if it has no comma where the column holds none. -/
def FitsFlag (mayHoldCommas : Bool) (t : Text) : Prop := mayHoldCommas = false → ',' ∉ t

variable {bs : List Bool}

lemma forall_notMem_of_fitsFlag (h : Forall₂ FitsFlag bs ts) (hbs : bs.count true = 0) :
    ∀ t ∈ ts, ',' ∉ t := by
  induction h with
  | nil => simp
  | @cons b t bs ts hb _ ih =>
    cases b with
    | true => simp at hbs
    | false =>
      intro x hx
      rcases mem_cons.mp hx with rfl | hx
      · exact hb rfl
      · exact ih (by simpa using hbs) x hx

/-- One column with commas at most: peel the columns before it from the left and those
after it from the right. -/
lemma rowItem_inj (hbs : bs.count true ≤ 1) (hts : Forall₂ FitsFlag bs ts)
    (hus : Forall₂ FitsFlag bs us)
  (h : rowItem ts = rowItem us) : ts = us := by
  induction hts generalizing us with
  | nil =>
    cases hus
    rfl
  | @cons b t bs ts hb hts' ih =>
    cases hus with
    | @cons _ u _ us hu hus' =>
      rw [rowItem_cons, rowItem_cons] at h
      have hlen : ts.length = us.length := hts'.length_eq.symm.trans hus'.length_eq
      cases b with
      | true =>
        have hzero : bs.count true = 0 := by
          rw [count_cons_self] at hbs
          omega
        obtain ⟨rfl, rfl⟩ := peel_tail hlen (forall_notMem_of_fitsFlag hts' hzero)
          (forall_notMem_of_fitsFlag hus' hzero) h
        rfl
      | false =>
        cases ts with
        | nil =>
          obtain rfl := length_eq_zero_iff.mp hlen.symm
          simpa using h
        | cons t' ts =>
          cases us with
          | nil => simp at hlen
          | cons u' us =>
            rw [tailText_cons, tailText_cons, ← rowItem_cons, ← rowItem_cons] at h
            obtain ⟨rfl, hrest⟩ := peel_left (hb rfl) (hu rfl) h
            rw [ih (by simpa using hbs) hus' hrest]

lemma intText_injective : Function.Injective intText := by
  have hdig : ∀ n, '-' ∉ Nat.toDigits 10 n := fun n h => by
    simpa using Nat.isDigit_of_mem_toDigits (by decide) (by decide) h
  have hinj : ∀ m n, Nat.toDigits 10 m = Nat.toDigits 10 n → m = n := fun m n h => by
    rw [← @Nat.ofDigitChars_ten_toDigits m, h, Nat.ofDigitChars_ten_toDigits]
  intro v w h
  unfold intText at h
  split_ifs at h with hv hw hw
  · have := hinj _ _ (cons.inj h).2
    omega
  · exact absurd (h ▸ mem_cons_self) (hdig _)
  · exact absurd (h.symm ▸ mem_cons_self) (hdig _)
  · have := hinj _ _ h
    omega

lemma comma_notMem_toDigits (n : ℕ) : ',' ∉ Nat.toDigits 10 n := fun h => by
  simpa using Nat.isDigit_of_mem_toDigits (by decide) (by decide) h

lemma comma_notMem_intText (v : ℤ) : ',' ∉ intText v := by
  unfold intText
  split_ifs <;> simp [comma_notMem_toDigits]

lemma intText_ne_nullText (v : ℤ) : intText v ≠ nullText := by
  intro h
  have hn : 'n' ∈ intText v := by
    rw [h]
    decide
  unfold intText at hn
  split_ifs at hn
  · rcases mem_cons.mp hn with hn | hn
    · cases hn
    · simpa using Nat.isDigit_of_mem_toDigits (by decide) (by decide) hn
  · simpa using Nat.isDigit_of_mem_toDigits (by decide) (by decide) hn

lemma floatText_ne_nullText (q : ℚ) : floatText q ≠ nullText := by
  intro h
  have hdot : '.' ∈ floatText q := by simp [floatText]
  rw [h] at hdot
  exact absurd hdot (by decide)

lemma comma_notMem_floatText (q : ℚ) : ',' ∉ floatText q := by
  have hdigit : ∀ d < 10, d.digitChar ≠ ',' := by decide
  have hsix : ∀ n, ',' ∉ sixDigits n := by
    intro n h
    obtain ⟨i, -, hi⟩ := mem_map.mp h
    exact hdigit _ (Nat.mod_lt _ (by decide)) hi
  unfold floatText
  split_ifs <;> simp [comma_notMem_toDigits, hsix]

variable {v : Value}

lemma valueText_inj {w : Value} (htype : v.type = w.type)
  (hfloat : ∀ q q', v = .float q → w = .float q' → floatText q = floatText q' → q = q')
  (h : valueText v = valueText w) : v = w := by
  cases v <;> cases w <;> simp only [Value.type, reduceCtorEq] at htype
  case int.int v w => rw [intText_injective h]
  case bool.bool b c =>
    revert h
    cases b <;> cases c <;> decide
  case float.float q q' => rw [hfloat q q' rfl rfl h]
  case string.string s u => exact congrArg Value.string h

/-- Only a string can have the text of a null. -/
lemma eq_string_of_nullText (h : valueText v = nullText) : v = .string nullText := by
  cases v with
  | int v => exact absurd h (intText_ne_nullText v)
  | bool b =>
    revert h
    cases b <;> decide
  | float q => exact absurd h (floatText_ne_nullText q)
  | string s => exact congrArg Value.string h

/-- A key column: whether it may hold nulls, and for a string column whether its strings may hold
commas and whether one of them may be the text of a null. -/
structure KeyColumn where
  type : ElemType
  mayHoldCommas : Bool
  mayBeNull : Bool
  mayHoldNullText : Bool
  deriving DecidableEq

def KeyColumn.holdsCommas (c : KeyColumn) : Bool := c.type = .string ∧ c.mayHoldCommas

/-- A null and a string of the column can have one text. -/
def KeyColumn.blursNull (c : KeyColumn) : Bool :=
  c.type = .string ∧ c.mayBeNull ∧ c.mayHoldNullText

/-- A cell a column may hold when its floats are taken from `F`. -/
structure Fits (F : Set ℚ) (c : KeyColumn) (cell : Option Value) : Prop where
  null : cell = none → c.mayBeNull
  type_eq : ∀ v, cell = some v → v.type = c.type
  commas : ∀ s, cell = some (.string s) → c.mayHoldCommas = false → ',' ∉ s
  nullString : cell = some (.string nullText) → c.mayHoldNullText
  float : ∀ q, cell = some (.float q) → q ∈ F

/-- The combined item of a row of key cells. -/
def item (r : List (Option Value)) : Text := rowItem (r.map stringify)

variable {F : Set ℚ} {cols : List KeyColumn} {r s : List (Option Value)} {c : KeyColumn}
  {cell : Option Value}

lemma Fits.fitsFlag (h : Fits F c cell) : FitsFlag c.holdsCommas (stringify cell) := by
  intro hc
  rcases cell with - | v
  · decide
  cases v with
  | int v => exact comma_notMem_intText v
  | bool b => cases b <;> decide
  | float q => exact comma_notMem_floatText q
  | string s =>
    refine h.commas s rfl ?_
    simpa [KeyColumn.holdsCommas, ← h.type_eq _ rfl, Value.type] using hc

lemma forall₂_fitsFlag (h : Forall₂ (Fits F) cols r) :
  Forall₂ FitsFlag (cols.map (·.holdsCommas)) (r.map stringify) := by
  rw [forall₂_map_left_iff, forall₂_map_right_iff]
  exact h.imp (fun _ _ hv => hv.fitsFlag)

lemma Fits.blursNull (hnull : Fits F c none) (hv : Fits F c (some v))
  (htext : valueText v = nullText) : c.blursNull := by
  obtain rfl := eq_string_of_nullText htext
  have htype : Value.type (.string nullText) = c.type := hv.type_eq _ rfl
  simp [KeyColumn.blursNull, ← htype, Value.type, hnull.null rfl, hv.nullString rfl]

lemma stringify_inj {cell' : Option Value} (hcell : Fits F c cell) (hcell' : Fits F c cell')
  (hF : c.type = .float → Set.InjOn floatText F) (hnull : c.blursNull = false)
  (h : stringify cell = stringify cell') : cell = cell' := by
  have hblurs : ¬c.blursNull := by simp [hnull]
  rcases cell with - | v <;> rcases cell' with - | w
  · rfl
  · exact absurd (hcell.blursNull hcell' h.symm) hblurs
  · exact absurd (hcell'.blursNull hcell h) hblurs
  · refine congrArg some (valueText_inj ?_ ?_ h)
    · exact (hcell.type_eq v rfl).trans (hcell'.type_eq w rfl).symm
    · rintro q q' rfl rfl hq
      exact hF (hcell.type_eq _ rfl).symm (hcell.float q rfl) (hcell'.float q' rfl) hq

lemma row_eq_of_texts (hr : Forall₂ (Fits F) cols r) (hs : Forall₂ (Fits F) cols s)
  (hF : (∃ c ∈ cols, c.type = .float) → Set.InjOn floatText F)
  (hnull : ∀ c ∈ cols, c.blursNull = false) (h : r.map stringify = s.map stringify) : r = s := by
  induction hr generalizing s with
  | nil =>
    cases hs
    rfl
  | @cons c cell cols r hcell _ ih =>
    cases hs with
    | @cons _ cell' _ s hcell' hs' =>
      simp only [map_cons, cons.injEq] at h
      have hsame := stringify_inj hcell hcell' (fun hc => hF ⟨c, by simp, hc⟩)
        (hnull c (by simp)) h.1
      rw [hsame, ih hs' (fun hc => hF (by simp [hc])) (fun c' hc' => hnull c' (by simp [hc'])) h.2]

/-- A value every column of a type can hold. -/
def plainValue (q : ℚ) : ElemType → Value
  | .int => .int 0
  | .bool => .bool false
  | .float => .float q
  | .string => .string []

variable {q : ℚ}

lemma fits_plainValue (hq : q ∈ F) (c : KeyColumn) : Fits F c (some (plainValue q c.type)) := by
  rcases c with ⟨_ | _ | _ | _, _, _, _⟩ <;>
    exact ⟨by simp, by simp [plainValue, Value.type], by simp [plainValue],
      by simp [plainValue, nullText], by simp [plainValue, hq]⟩

/-- The row of plain values. -/
def plainRow (q : ℚ) (cols : List KeyColumn) : List (Option Value) :=
  cols.map (fun c => some (plainValue q c.type))

lemma forall₂_plainRow (hq : q ∈ F) (cols : List KeyColumn) :
  Forall₂ (Fits F) cols (plainRow q cols) := by
  rw [plainRow, forall₂_map_right_iff]
  exact forall₂_same.mpr (fun c _ => fits_plainValue hq c)

/-- A row that is plain but for one cell. -/
lemma forall₂_plainRow_cell (hq : q ∈ F) (A C : List KeyColumn) (h : Fits F c cell) :
  Forall₂ (Fits F) (A ++ c::C) (plainRow q A ++ cell::plainRow q C) :=
  rel_append (forall₂_plainRow hq A) (.cons h (forall₂_plainRow hq C))

lemma fits_string (hc : c.holdsCommas) {t : Text} (ht : t ≠ nullText) :
  Fits F c (some (.string t)) := by
  simp only [KeyColumn.holdsCommas, decide_eq_true_iff] at hc
  exact ⟨by simp, by simp [hc.1, Value.type], by simp [hc.2], by simp [ht], by simp⟩

lemma exists_two_of_countP {cols : List KeyColumn} (h : 1 < cols.countP (·.holdsCommas)) :
  ∃ A c B d C, cols = A ++ c::(B ++ d::C) ∧ c.holdsCommas ∧ d.holdsCommas := by
  induction cols with
  | nil => simp at h
  | cons c cols ih =>
    by_cases hc : c.holdsCommas
    · rw [countP_cons_of_pos hc] at h
      obtain ⟨d, hd, hd'⟩ := countP_pos_iff.mp (Nat.lt_of_succ_lt_succ h)
      obtain ⟨B, C, rfl⟩ := append_of_mem hd
      exact ⟨[], c, B, d, C, rfl, hc, hd'⟩
    · rw [countP_cons_of_neg hc] at h
      obtain ⟨A, c', B, d, C, rfl, hc', hd⟩ := ih h
      exact ⟨c::A, c', B, d, C, rfl, hc', hd⟩

lemma rowItem_eq_of_tailText {A : List Text} (h : tailText ts = tailText us)
  (hts : rowItem ts = rowItem us) : rowItem (A ++ ts) = rowItem (A ++ us) := by
  cases A with
  | nil => exact hts
  | cons a A => rw [cons_append, cons_append, rowItem_cons, rowItem_cons,
      tailText_append, tailText_append, h]

/-- What a string column has to hold before the comma to be taken for the columns in between. -/
def commaText (B : List (Option Value)) : Text := tailText (B.map stringify) ++ [',']

lemma item_collision {A B C : List (Option Value)} :
  item (A ++ some (.string [])::(B ++ some (.string (commaText B))::C))
    = item (A ++ some (.string (commaText B))::(B ++ some (.string [])::C)) := by
  rw [item, item, map_append, map_append]
  refine rowItem_eq_of_tailText ?_ ?_ <;>
    simp [rowItem_cons, stringify, valueText, commaText, append_assoc]

lemma commaText_ne (B : List (Option Value)) : commaText B ≠ nullText ∧ commaText B ≠ [] := by
  have hcomma : ',' ∈ commaText B := by simp [commaText]
  constructor <;> intro h <;> rw [h] at hcomma
  · exact absurd hcomma (by decide)
  · cases hcomma

section Necessary

variable (hinj : Set.InjOn item {r | Forall₂ (Fits F) cols r}) {q₀ : ℚ} (hq₀ : q₀ ∈ F)

include hinj hq₀

lemma countP_le_one_of_injOn : cols.countP (·.holdsCommas) ≤ 1 := by
  by_contra hlt
  obtain ⟨A, c, B, d, C, rfl, hc, hd⟩ := exists_two_of_countP (not_le.mp hlt)
  have hfit : ∀ x y, x ≠ nullText → y ≠ nullText → Forall₂ (Fits F) (A ++ c::(B ++ d::C))
      (plainRow q₀ A ++ some (.string x)::(plainRow q₀ B ++ some (.string y)::plainRow q₀ C)) :=
    fun x y hx hy => rel_append (forall₂_plainRow hq₀ A)
      (.cons (fits_string hc hx) (forall₂_plainRow_cell hq₀ B C (fits_string hd hy)))
  obtain ⟨hnull, hne⟩ := commaText_ne (plainRow q₀ B)
  have heq := hinj (hfit [] _ (by decide) hnull) (hfit _ [] hnull (by decide)) item_collision
  simp only [append_cancel_left_eq, cons.injEq, Option.some.injEq, Value.string.injEq] at heq
  exact hne heq.1.symm

lemma injOn_floatText_of_injOn (hfloat : ∃ c ∈ cols, c.type = .float) :
  Set.InjOn floatText F := by
  obtain ⟨c, hc, htype⟩ := hfloat
  intro q hq q' hq' ht
  obtain ⟨A, C, rfl⟩ := append_of_mem hc
  have hfit : ∀ x ∈ F, Forall₂ (Fits F) (A ++ c::C)
      (plainRow q₀ A ++ some (.float x)::plainRow q₀ C) := fun x hx =>
    forall₂_plainRow_cell hq₀ A C
      ⟨by simp, by simp [htype, Value.type], by simp, by simp, by simpa using hx⟩
  have heq := hinj (hfit q hq) (hfit q' hq') (by simp [item, stringify, valueText, ht])
  simpa using heq

lemma blursNull_eq_false_of_injOn (hc : c ∈ cols) : c.blursNull = false := by
  by_contra hblurs
  obtain ⟨htype, hnull, htext⟩ : c.type = .string ∧ c.mayBeNull = true ∧ c.mayHoldNullText = true :=
    by simpa [KeyColumn.blursNull] using hblurs
  obtain ⟨A, C, rfl⟩ := append_of_mem hc
  have hcell : Fits F c none := ⟨fun _ => hnull, by simp, by simp, by simp, by simp⟩
  have hstring : Fits F c (some (.string nullText)) :=
    ⟨by simp, by simp [htype, Value.type], fun s hs _ => by
      obtain rfl : nullText = s := by simpa using hs
      decide, fun _ => htext, by simp⟩
  have heq := hinj (forall₂_plainRow_cell hq₀ A C hcell) (forall₂_plainRow_cell hq₀ A C hstring)
    (by simp [item, stringify, valueText])
  simp at heq

end Necessary

/-- For every list of key columns, the combined items tell all rows apart exactly when at most one
string column may hold commas, the float columns hold no two numbers with the same six decimals,
and no string column may hold both nulls and the text of a null. -/
theorem item_injOn_iff (cols : List KeyColumn) (F : Set ℚ) (hne : F.Nonempty) :
  Set.InjOn item {r | Forall₂ (Fits F) cols r} ↔
    cols.countP (·.holdsCommas) ≤ 1 ∧ ((∃ c ∈ cols, c.type = .float) → Set.InjOn floatText F) ∧
      ∀ c ∈ cols, c.blursNull = false := by
  obtain ⟨q₀, hq₀⟩ := hne
  constructor
  · intro hinj
    exact ⟨countP_le_one_of_injOn hinj hq₀, injOn_floatText_of_injOn hinj hq₀,
      fun c hc => blursNull_eq_false_of_injOn hinj hq₀ hc⟩
  · rintro ⟨hcount, hF, hnull⟩ r hr s hs h
    have hflags : (cols.map (·.holdsCommas)).count true ≤ 1 := by
      simpa [List.count, countP_map, Function.comp_def] using hcount
    exact row_eq_of_texts hr hs hF hnull
      (rowItem_inj hflags (forall₂_fitsFlag hr) (forall₂_fitsFlag hs) h)

/-- Strings and integers, commas in the first column only and nulls in the integers. -/
theorem item_injOn_stringInt : Set.InjOn item {r | Forall₂ (Fits {0})
  [⟨.string, true, false, true⟩, ⟨.int, false, true, false⟩, ⟨.string, false, false, true⟩] r} :=
  (item_injOn_iff _ {0} ⟨0, rfl⟩).mpr ⟨by decide, by simp, by decide⟩

/-- Rows that differ in both columns get one item, and so do two different numbers, and a null and
a string. -/
theorem item_collisions :
  ([some (.string "a,b".toList), some (.string "c".toList)] : List (Option Value)) ≠
      [some (.string "a".toList), some (.string "b,c".toList)] ∧
    item [some (.string "a,b".toList), some (.string "c".toList)] =
      item [some (.string "a".toList), some (.string "b,c".toList)] ∧
    item [some (.float (1/10^7))] = item [some (.float (2/10^7))] ∧
    item [none] = item [some (.string "null".toList)] := by
  decide +kernel

end Scql.KeyEncoding
