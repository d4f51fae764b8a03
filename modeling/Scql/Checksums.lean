import Mathlib.Data.List.AList
import Scql.MetaStorage

/-! # Checksums

What two brokers compare instead of rows: a hash of the tables a party owns and one of the column
controls on them. A hasher is modelled by the texts it was fed with. -/
namespace Scql.Broker

open MetaStorage Fallible List

abbrev Bytes := List UInt8

structure Checksum where
  tableSchema : Bytes
  ccl : Bytes
  deriving DecidableEq

def Checksum.empty : Checksum := ⟨[], []⟩

inductive ChecksumCompareResult
  | EQUAL | TABLE_SCHEMA_NOT_EQUAL | CCL_NOT_EQUAL | TABLE_CCL_NOT_EQUAL
  deriving DecidableEq

def Checksum.compareWith (c checksum : Checksum) : ChecksumCompareResult :=
  if c.ccl ≠ checksum.ccl ∧ c.tableSchema ≠ checksum.tableSchema then .TABLE_CCL_NOT_EQUAL
  else if c.ccl ≠ checksum.ccl then .CCL_NOT_EQUAL
  else if c.tableSchema ≠ checksum.tableSchema then .TABLE_SCHEMA_NOT_EQUAL
  else .EQUAL

lemma Checksum.compareWith_eq_EQUAL {c d : Checksum} : c.compareWith d = .EQUAL ↔ c = d := by
  rcases c with ⟨ct, cc⟩
  rcases d with ⟨dt, dc⟩
  simp only [compareWith, Checksum.mk.injEq]
  by_cases ht : ct = dt <;> by_cases hc : cc = dc <;> simp [ht, hc]

/-- `localChecksums` are made from the local storage, `remoteChecksums` were reported by their
owners. -/
structure ChecksumStorage where
  localChecksums : AList (fun _ : PartyCode => Checksum) := ∅
  remoteChecksums : AList (fun _ : PartyCode => Checksum) := ∅

namespace ChecksumStorage

def getLocal (s : ChecksumStorage) (party : PartyCode) : Except String Checksum :=
  match s.localChecksums.lookup party with
  | none => .error ("failed to find local checksum for party " ++ party)
  | some c => .ok c

def getRemote (s : ChecksumStorage) (party : PartyCode) : Except String Checksum :=
  match s.remoteChecksums.lookup party with
  | none => .error ("failed to find remote checksum for party " ++ party)
  | some c => .ok c

def checkNonempty (sum : Checksum) : Except String Unit := do
  if sum.tableSchema = [] then throw "table schema in checksum is empty"
  if sum.ccl = [] then throw "ccl in checksum is empty"

def saveLocal (s : ChecksumStorage) (party : PartyCode) (sum : Checksum) :
    Except String ChecksumStorage := do
  checkNonempty sum
  return {s with localChecksums := s.localChecksums.insert party sum}

def saveRemote (s : ChecksumStorage) (party : PartyCode) (sum : Option Checksum) :
    Except String ChecksumStorage :=
  match sum with
  | none => .error "checksum in pb is nil"
  | some sum => do
    checkNonempty sum
    return {s with remoteChecksums := s.remoteChecksums.insert party sum}

def compareChecksumFor (s : ChecksumStorage) (party : PartyCode) :
    Except String ChecksumCompareResult := do
  let localSum ← s.getLocal party
  let remoteSum ← s.getRemote party
  return localSum.compareWith remoteSum

variable {s s' : ChecksumStorage} {p q : PartyCode} {c : Checksum}

lemma getLocal_eq_ok : s.getLocal p = .ok c ↔ s.localChecksums.lookup p = some c := by
  rw [getLocal]
  cases s.localChecksums.lookup p <;> simp

lemma saveLocal_ok (h : s.saveLocal p c = .ok s') :
  s' = {s with localChecksums := s.localChecksums.insert p c} := by
  obtain ⟨_, -, h⟩ := bind_eq_ok.mp h
  exact (pure_eq_ok.mp h).symm

lemma saveRemote_ok {sum : Option Checksum} (h : s.saveRemote p sum = .ok s') :
  ∃ c, sum = some c ∧ s' = {s with remoteChecksums := s.remoteChecksums.insert p c} := by
  cases sum with
  | none => cases h
  | some c =>
    obtain ⟨_, -, h⟩ := bind_eq_ok.mp h
    exact ⟨c, rfl, (pure_eq_ok.mp h).symm⟩

lemma compareChecksumFor_ok {r : ChecksumCompareResult} (h : s.compareChecksumFor p = .ok r) :
  ∃ c d, s.localChecksums.lookup p = some c ∧ s.remoteChecksums.lookup p = some d ∧
    c.compareWith d = r := by
  rw [compareChecksumFor, getLocal, getRemote] at h
  split at h
  · cases h
  · split at h
    · cases h
    · rename_i hc _ _ hd
      exact ⟨_, _, hc, hd, pure_eq_ok.mp h⟩

end ChecksumStorage

/-- The value of a privilege name; names that are not known count as `UNKNOWN`. -/
def visibilityName (priv : String) : String :=
  if priv.toUpper ∈ ["PLAINTEXT", "ENCRYPTED_ONLY", "PLAINTEXT_AFTER_JOIN",
    "PLAINTEXT_AFTER_GROUP_BY", "PLAINTEXT_AFTER_COMPARE", "PLAINTEXT_AFTER_AGGREGATE",
    "PLAINTEXT_AS_JOIN_PAYLOAD", "REVEAL_RANK"] then priv.toUpper
  else "UNKNOWN"

structure ColumnControl where
  partyCode : PartyCode
  visibility : String
  databaseName : String
  tableName : String
  columnName : String
  deriving DecidableEq

def columnPrivs2ColumnControls (cps : List ColumnPriv) : List ColumnControl :=
  cps.map (fun cp =>
    ⟨cp.destParty, visibilityName cp.priv, cp.projectID, cp.tableName, cp.columnName⟩)

def ColumnControl.key (c : ColumnControl) : String :=
  c.tableName ++ " " ++ c.columnName ++ " " ++ c.partyCode

structure ChecksumHasher where
  tableSchemaCrypt : String := ""
  cclCrypt : String := ""

namespace ChecksumHasher

def write (written : String) (texts : List String) : String := texts.foldl (· ++ ·) written

/-- The columns are sorted by their names. -/
def infeedTable (h : ChecksumHasher) (tableName : String) (columnInfos : List ColumnMeta) :
    ChecksumHasher :=
  let columnInfos := columnInfos.insertionSort (fun c d => c.columnName ≤ d.columnName)
  { h with
    tableSchemaCrypt := write (write h.tableSchemaCrypt [tableName])
      (columnInfos.flatMap (fun c => [c.columnName, c.dType]))}

/-- The party a control is for decides the order only. -/
def infeedCCLs (h : ChecksumHasher) (ccls : List ColumnControl) : ChecksumHasher :=
  let ccls := ccls.insertionSort (fun c d => c.key ≤ d.key)
  { h with
    cclCrypt := write h.cclCrypt
      (ccls.flatMap (fun c => [c.tableName, c.columnName, c.visibility]))}

def finalize (sha256 : String → Bytes) (h : ChecksumHasher) : Checksum :=
  ⟨sha256 h.tableSchemaCrypt, sha256 h.cclCrypt⟩

end ChecksumHasher

def sortColumns (m : TableMeta) : TableMeta :=
  {m with columns := m.columns.insertionSort (fun c d => c.columnName ≤ d.columnName)}

/-- `digest` is the hash as a text. -/
def getTableChecksum (digest : String → String) (m : TableMeta) : String :=
  digest (ChecksumHasher.write (ChecksumHasher.write "" [m.table.tableName])
    ((sortColumns m).columns.flatMap (fun c => [c.columnName, c.dType])))

def getCCLsChecksum (digest : String → String) (ccls : List ColumnPriv) : String :=
  digest (ChecksumHasher.infeedCCLs {} (columnPrivs2ColumnControls ccls)).cclCrypt

/-- The order in which rows are read does not matter if no two have the same key. -/
lemma insertionSort_congr {α : Type} {key : α → String} {l l' : List α} (hl : (l.map key).Nodup)
  (hl' : (l'.map key).Nodup) (h : ∀ a, a ∈ l ↔ a ∈ l') :
  l.insertionSort (fun a b => key a ≤ key b) = l'.insertionSort (fun a b => key a ≤ key b) := by
  have hperm : l.Perm l' := (perm_ext_iff_of_nodup hl.of_map hl'.of_map).mpr h
  have htotal : Std.Total (fun a b : α => key a ≤ key b) := ⟨fun a b => le_total (key a) (key b)⟩
  have htrans : IsTrans α (fun a b => key a ≤ key b) := ⟨fun _ _ _ => le_trans⟩
  refine Perm.eq_of_pairwise (fun a b ha hb hab hba => ?_) (pairwise_insertionSort _ l)
    (pairwise_insertionSort _ l')
    ((perm_insertionSort _ l).trans (hperm.trans (perm_insertionSort _ l').symm))
  exact inj_on_of_nodup_map hl ((mem_insertionSort _).mp ha)
    ((h b).mpr ((mem_insertionSort _).mp hb)) (le_antisymm hab hba)

end Scql.Broker
