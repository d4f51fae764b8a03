import Mathlib.Data.Int.Notation
import Scql.FallibleRules

/-! # Merging the results of the engines

The columns of a result are collected in the order in which the engines answer, and then compared
with the names of the plan place by place. A call that waits for the engines takes the status and
the job of its result from the first answer; reports that come later are merged in the order of a
map. -/
namespace Scql.ResultMerging

open Fallible List

variable {β : Type}

structure Status where
  code : ℤ := 0
  message : String := ""
  deriving DecidableEq

/-- `dimValue` is the first dimension, if the tensor has a shape. -/
structure Column (β : Type) where
  name : String
  dimValue : Option ℤ
  data : β

/-- What an engine answers or reports, or the error of the call. -/
structure Response (β : Type) where
  err : Option String := none
  status : Status := {}
  jobId : String := ""
  numRowsAffected : ℤ := 0
  outColumns : List (Column β) := []

structure QueryResult (β : Type) where
  status : Status
  scdbSessionId : String
  outColumns : List (Column β) := []
  affectedRows : ℤ := 0

inductive Failure
  | refused (reason : String)
  | panics

/-- What was collected; there is no `dimValue` before the first column. -/
structure Merged (β : Type) where
  outCols : List (Column β) := []
  affectedRows : ℤ := 0
  dimValue : Option ℤ := none

def addColumn (outputNames : List String) (m : Merged β) (col : Column β) :
    Except String (Merged β) :=
  match col.dimValue with
  | none => .error "unexpected nil TensorShape"
  | some dim => do
    ensure (∀ d ∈ m.dimValue, d = dim) ("dim shape not matched, peer shape value=" ++
      toString (m.dimValue.getD 0) ++ ", self shape value=" ++ toString dim)
    return { m with
      dimValue := some dim
      outCols := if col.name ∈ outputNames then m.outCols ++ [col] else m.outCols }

def addResponse (outputNames : List String) (m : Merged β) (r : Response β) :
    Except String (Merged β) := do
  ensure r.err.isNone (r.err.getD "")
  ensure (r.status.code = 0) r.status.message
  ensure (r.numRowsAffected = 0 ∨ m.affectedRows = 0 ∨ m.affectedRows = r.numRowsAffected)
    ("affected rows not matched, received affectedRows=" ++ toString m.affectedRows ++
      ", req.NumRowsAffected=" ++ toString r.numRowsAffected)
  r.outColumns.foldlM (addColumn outputNames)
    (if r.numRowsAffected = 0 then m else { m with affectedRows := r.numRowsAffected })

def collect (outputNames : List String) (responses : List (Response β)) :
    Except String (Merged β) :=
  responses.foldlM (addResponse outputNames) {}

def checkResultSchemas (outCols : List (Column β)) (expectColNames : List String) :
    Except String Unit := do
  ensure (outCols.length = expectColNames.length) ("the size of output column expected to be " ++
    toString expectColNames.length ++ ", but got " ++ toString outCols.length)
  (expectColNames.zip outCols).forM fun (expected, col) => ensure (col.name = expected)
    ("output column name not match, expect=" ++ expected ++ ", got=" ++ col.name)

/-- The result, if the columns are those of the plan. -/
def checkedResult (outputNames : List String) (m : Merged β) (status : Status)
    (scdbSessionId : String) : Except Failure (QueryResult β) :=
  match checkResultSchemas m.outCols outputNames with
  | .error reason => .error (.refused reason)
  | .ok _ => .ok ⟨status, scdbSessionId, m.outCols, m.affectedRows⟩

/-- The responses in the order of their arrival. An engine that works on in the background has no
columns yet; `responses[0]` panics if no engine was called. -/
def runExecutionPlanCore (engineAsync : Bool) (outputNames : List String)
    (responses : List (Response β)) : Except Failure (QueryResult β) :=
  match collect outputNames responses with
  | .error reason => .error (.refused reason)
  | .ok m =>
    match responses.head? with
    | none => .error .panics
    | some first =>
      if engineAsync then .ok { status := first.status, scdbSessionId := first.jobId }
      else checkedResult outputNames m first.status first.jobId

/-- The reports in the order of the map. -/
def mergeQueryResults (sessionID : String) (outputNames : List String)
    (reports : List (Response β)) : Except Failure (QueryResult β) :=
  match collect outputNames reports with
  | .error reason => .error (.refused reason)
  | .ok m => checkedResult outputNames m ⟨0, "ok"⟩ sessionID

def resultColumns (outputNames : List String) (r : Response β) : List (Column β) :=
  r.outColumns.filter (·.name ∈ outputNames)

variable {names : List String} {rs rs' : List (Response β)} {m m' : Merged β}

/-- What the collected data says about the responses. -/
structure Collected (names : List String) (rs : List (Response β)) (m : Merged β) : Prop where
  ok : ∀ r ∈ rs, r.err.isNone ∧ r.status.code = 0
  rows : ∀ r ∈ rs, r.numRowsAffected = 0 ∨ r.numRowsAffected = m.affectedRows
  exists_rows : m.affectedRows = 0 ∨ ∃ r ∈ rs, r.numRowsAffected = m.affectedRows
  dims : ∀ r ∈ rs, ∀ c ∈ r.outColumns, c.dimValue.isSome ∧ c.dimValue = m.dimValue
  outCols : m.outCols = rs.flatMap (resultColumns names)

variable {cols : List (Column β)}

lemma foldlM_addColumn (h : cols.foldlM (addColumn names) m = .ok m') :
    m'.affectedRows = m.affectedRows ∧ m'.outCols = m.outCols ++ cols.filter (·.name ∈ names) ∧
    (∀ c ∈ cols, c.dimValue.isSome ∧ c.dimValue = m'.dimValue) ∧
    ∀ d ∈ m.dimValue, m'.dimValue = some d := by
  induction cols generalizing m with
  | nil =>
    cases h
    simp
  | cons c cols ih =>
    obtain ⟨m₁, hm₁, h⟩ := foldlM_cons_eq_ok.mp h
    rw [addColumn] at hm₁
    split at hm₁
    · cases hm₁
    · next dim hdim =>
      obtain ⟨_, hsame, hm₁⟩ := bind_eq_ok.mp hm₁
      cases hm₁
      obtain ⟨hrows, hcols, hdims, hkeep⟩ := ih h
      have hdim' := hkeep dim rfl
      refine ⟨hrows, ?_, forall_mem_cons.mpr ⟨by simp [hdim, hdim'], hdims⟩, fun d hd => ?_⟩
      · rw [hcols, filter_cons]
        split <;> simp_all
      · rw [hdim', ensure_eq_ok.mp hsame d hd]

lemma collected_of_collect (h : collect names rs = .ok m) : Collected names rs m := by
  refine foldlM_prefix rs ?_ ⟨by simp, by simp, .inl rfl, by simp, rfl⟩ h
  intro done r rest _ s s' hs hr
  obtain ⟨_, herr, hr⟩ := bind_eq_ok.mp hr
  obtain ⟨_, hcode, hr⟩ := bind_eq_ok.mp hr
  obtain ⟨_, hrows, hr⟩ := bind_eq_ok.mp hr
  rw [ensure_eq_ok] at herr hcode hrows
  obtain ⟨haff, hcols, hdims, hkeep⟩ := foldlM_addColumn hr
  have hsame : s'.outCols = s.outCols ++ resultColumns names r ∧
      ∀ d ∈ s.dimValue, s'.dimValue = some d := by
    split_ifs at hcols hkeep <;> exact ⟨hcols, hkeep⟩
  have haff : r.numRowsAffected = 0 ∧ s'.affectedRows = s.affectedRows ∨
      r.numRowsAffected ≠ 0 ∧ s'.affectedRows = r.numRowsAffected := by
    split_ifs at haff with hzero
    · exact .inl ⟨hzero, haff⟩
    · exact .inr ⟨hzero, haff⟩
  refine ⟨forall_mem_append.mpr ⟨hs.ok, forall_mem_singleton.mpr ⟨herr, hcode⟩⟩,
    forall_mem_append.mpr ⟨fun x hx => ?_, forall_mem_singleton.mpr (by omega)⟩, ?_,
    forall_mem_append.mpr ⟨fun x hx c hc => ?_, forall_mem_singleton.mpr hdims⟩, ?_⟩
  · have := hs.rows x hx
    omega
  · rcases haff with ⟨-, haff⟩ | ⟨-, haff⟩
    · rw [haff]
      exact hs.exists_rows.imp_right fun ⟨x, hx, heq⟩ => ⟨x, mem_append_left _ hx, heq⟩
    · exact .inr ⟨r, by simp, haff.symm⟩
  · obtain ⟨hsome, heq⟩ := hs.dims x hx c hc
    obtain ⟨d, hd⟩ := Option.isSome_iff_exists.mp hsome
    exact ⟨hsome, hd.trans (hsame.2 d (heq ▸ hd)).symm⟩
  · rw [hsame.1, hs.outCols, flatMap_append, flatMap_singleton]

def Agrees (a : ℤ) (d : Option ℤ) (m : Merged β) : Prop :=
  (m.affectedRows = 0 ∨ m.affectedRows = a) ∧ (m.dimValue = none ∨ m.dimValue = d)

variable {a : ℤ} {d : Option ℤ}

lemma foldlM_addColumn_ok (names : List String) (hm : Agrees a d m)
    (hdims : ∀ c ∈ cols, c.dimValue.isSome ∧ c.dimValue = d) :
    ∃ m', cols.foldlM (addColumn names) m = .ok m' ∧ Agrees a d m' := by
  induction cols generalizing m with
  | nil => exact ⟨m, rfl, hm⟩
  | cons c cols ih =>
    obtain ⟨⟨hsome, hd⟩, hdims⟩ := forall_mem_cons.mp hdims
    obtain ⟨dim, hdim⟩ := Option.isSome_iff_exists.mp hsome
    obtain rfl : d = some dim := hd.symm.trans hdim
    obtain ⟨m', hm', hagrees⟩ := ih (m := { m with
      dimValue := some dim
      outCols := if c.name ∈ names then m.outCols ++ [c] else m.outCols }) ⟨hm.1, .inr rfl⟩ hdims
    refine ⟨m', ?_, hagrees⟩
    rw [foldlM_cons_eq_ok]
    refine ⟨_, ?_, hm'⟩
    rw [addColumn, hdim]
    refine bind_eq_ok.mpr ⟨(), ensure_eq_ok.mpr fun x hx => ?_, rfl⟩
    rcases hm.2 with h | h <;> rw [h] at hx <;> cases hx
    rfl

/-- A loop over responses that agree does not fail. -/
lemma foldlM_ok (names : List String) (hm : Agrees a d m)
    (hok : ∀ r ∈ rs, r.err.isNone ∧ r.status.code = 0)
    (hrows : ∀ r ∈ rs, r.numRowsAffected = 0 ∨ r.numRowsAffected = a)
    (hdims : ∀ r ∈ rs, ∀ c ∈ r.outColumns, c.dimValue.isSome ∧ c.dimValue = d) :
    ∃ m', rs.foldlM (addResponse names) m = .ok m' := by
  induction rs generalizing m with
  | nil => exact ⟨m, rfl⟩
  | cons r rs ih =>
    obtain ⟨⟨herr, hcode⟩, hok⟩ := forall_mem_cons.mp hok
    obtain ⟨hrow, hrows⟩ := forall_mem_cons.mp hrows
    obtain ⟨hdim, hdims⟩ := forall_mem_cons.mp hdims
    have hstart : Agrees a d
        (if r.numRowsAffected = 0 then m else { m with affectedRows := r.numRowsAffected }) := by
      split
      · exact hm
      · next hne => exact ⟨.inr (hrow.resolve_left hne), hm.2⟩
    obtain ⟨m₁, hm₁, hagrees⟩ := foldlM_addColumn_ok names hstart hdim
    obtain ⟨m', hm'⟩ := ih hagrees hok hrows hdims
    refine ⟨m', foldlM_cons_eq_ok.mpr ⟨m₁, ?_, hm'⟩⟩
    have hsame : r.numRowsAffected = 0 ∨ m.affectedRows = 0 ∨
        m.affectedRows = r.numRowsAffected := by
      have := hm.1
      omega
    exact bind_eq_ok.mpr ⟨(), ensure_eq_ok.mpr herr, bind_eq_ok.mpr ⟨(), ensure_eq_ok.mpr hcode,
      bind_eq_ok.mpr ⟨(), ensure_eq_ok.mpr hsame, hm₁⟩⟩⟩

/-- No response is an error, and the responses agree on the rows that were affected and on the
length of the columns. -/
structure Consistent (rs : List (Response β)) : Prop where
  ok : ∀ r ∈ rs, r.err.isNone ∧ r.status.code = 0
  rows : ∃ a, ∀ r ∈ rs, r.numRowsAffected = 0 ∨ r.numRowsAffected = a
  dims : ∃ d : ℤ, ∀ r ∈ rs, ∀ c ∈ r.outColumns, c.dimValue = some d

lemma Collected.consistent (h : Collected names rs m) : Consistent rs := by
  refine ⟨h.ok, ⟨_, h.rows⟩, m.dimValue.getD 0, fun r hr c hc => ?_⟩
  obtain ⟨hsome, heq⟩ := h.dims r hr c hc
  obtain ⟨d, hd⟩ := Option.isSome_iff_exists.mp hsome
  rw [← heq, hd, Option.getD_some]

lemma Consistent.of_mem (h : Consistent rs) (hmem : ∀ r ∈ rs', r ∈ rs) : Consistent rs' := by
  obtain ⟨hok, ⟨a, ha⟩, d, hd⟩ := h
  exact ⟨fun r hr => hok r (hmem r hr), ⟨a, fun r hr => ha r (hmem r hr)⟩, d,
    fun r hr => hd r (hmem r hr)⟩

lemma Consistent.collect_ok (h : Consistent rs) (names : List String) :
    ∃ m, collect names rs = .ok m := by
  obtain ⟨a, ha⟩ := h.rows
  obtain ⟨d, hd⟩ := h.dims
  exact foldlM_ok names (d := some d) ⟨.inl rfl, .inl rfl⟩ h.ok ha
    fun r hr c hc => ⟨by rw [hd r hr c hc]; rfl, hd r hr c hc⟩

lemma Collected.rows_eq (h : Collected names rs m) (h' : Collected names rs' m')
    (hmem : ∀ r ∈ rs', r ∈ rs) : m'.affectedRows = 0 ∨ m'.affectedRows = m.affectedRows := by
  rcases h'.exists_rows with hzero | ⟨r, hr, hrows⟩
  · exact .inl hzero
  · exact hrows ▸ h.rows r (hmem r hr)

lemma Collected.rows_perm (h : Collected names rs m) (h' : Collected names rs' m')
    (hperm : rs'.Perm rs) : m'.affectedRows = m.affectedRows := by
  have h₁ := h.rows_eq h' fun r => hperm.mem_iff.mp
  have h₂ := h'.rows_eq h fun r => hperm.mem_iff.mpr
  omega

lemma checkResultSchemas_eq_ok {u : Unit} :
    checkResultSchemas cols names = .ok u ↔ cols.map (·.name) = names := by
  rw [checkResultSchemas, bind_eq_ok]
  constructor
  · rintro ⟨_, hlen, hnames⟩
    refine ext_get (by simpa using ensure_eq_ok.mp hlen) fun i hi hi' => ?_
    have hi₀ : i < cols.length := by simpa using hi
    have hmem : (names[i], cols[i]) ∈ names.zip cols := by
      rw [mem_iff_getElem]
      exact ⟨i, by simp only [length_zip]; omega, by simp⟩
    simpa using ensure_eq_ok.mp (forM_ok_mem hnames hmem)
  · rintro rfl
    refine ⟨(), ensure_eq_ok.mpr (by simp), forM_ok_of_forall fun x hx => ensure_eq_ok.mpr ?_⟩
    rw [zip_map_left, mem_map] at hx
    obtain ⟨⟨c, c'⟩, hx, rfl⟩ := hx
    obtain rfl : c = c' := by
      obtain ⟨i, hi, heq⟩ := mem_iff_getElem.mp hx
      simp only [getElem_zip, Prod.mk.injEq] at heq
      exact heq.1.symm.trans heq.2
    rfl

lemma checkedResult_eq_ok {status : Status} {id : String} {res : QueryResult β} :
    checkedResult names m status id = .ok res ↔ m.outCols.map (·.name) = names ∧
      res = ⟨status, id, m.outCols, m.affectedRows⟩ := by
  rw [checkedResult]
  split
  · next reason hcheck =>
    refine iff_of_false (by simp) fun h => ?_
    rw [(checkResultSchemas_eq_ok (u := ())).mpr h.1] at hcheck
    cases hcheck
  · next hcheck => simp [checkResultSchemas_eq_ok.mp hcheck, eq_comm]

lemma checkedResult_not_panics {status : Status} {id : String} :
    checkedResult names m status id ≠ .error .panics := by
  rw [checkedResult]
  split <;> simp

/-- What a run does with the responses: it collects them, takes status and session from `head`
and returns the columns if they have the names of the plan. -/
def Merges (names : List String) (head : List (Response β) → Option (Status × String))
    (run : List (Response β) → Except Failure (QueryResult β)) : Prop :=
  ∀ rs res, run rs = .ok res ↔ ∃ m h, collect names rs = .ok m ∧ head rs = some h ∧
    m.outCols.map (·.name) = names ∧ res = ⟨h.1, h.2, m.outCols, m.affectedRows⟩

def firstHead (rs : List (Response β)) : Option (Status × String) :=
  rs.head?.map fun r => (r.status, r.jobId)

lemma merges_core (names : List String) :
    Merges names firstHead (runExecutionPlanCore (β := β) false names) := by
  intro rs res
  rw [runExecutionPlanCore, firstHead]
  split
  · next hm => simp [hm]
  · next m hm =>
    split
    · next hhead => simp [hhead]
    · next first hhead => simp [hm, hhead, checkedResult_eq_ok]

lemma merges_reports (sessionID : String) (names : List String) :
    Merges names (fun _ => some (⟨0, "ok"⟩, sessionID))
      (mergeQueryResults (β := β) sessionID names) := by
  intro rs res
  rw [mergeQueryResults]
  split
  · next hm => simp [hm]
  · next m hm => simp [hm, checkedResult_eq_ok]

/-- In some order the responses have the columns of the plan. -/
def Orderable (names : List String) (rs : List (Response β)) : Prop :=
  ∃ rs₀ : List (Response β), rs₀.Perm rs ∧
    (rs₀.flatMap (resultColumns names)).map (·.name) = names

/-- The columns of two responses are the same in both orders. -/
def Interchange (names : List String) (rs : List (Response β)) : Prop :=
  ∀ r ∈ rs, ∀ r' ∈ rs, resultColumns names r ++ resultColumns names r' =
    resultColumns names r' ++ resultColumns names r

/-- Status and session do not depend on the order. -/
def SameHead (head : List (Response β) → Option (Status × String)) (rs : List (Response β)) :
    Prop :=
  ∀ rs' : List (Response β), rs'.Perm rs → head rs' = head rs

variable {head : List (Response β) → Option (Status × String)}
  {run : List (Response β) → Except Failure (QueryResult β)}

lemma Interchange.flatMap_perm (h : Interchange names rs) (hperm : rs'.Perm rs) :
    rs'.flatMap (resultColumns names) = rs.flatMap (resultColumns names) := by
  rw [flatMap_eq_foldl, flatMap_eq_foldl]
  refine hperm.foldl_eq' (fun r hr r' hr' acc => ?_) []
  rw [append_assoc, append_assoc, h r (hperm.mem_iff.mp hr) r' (hperm.mem_iff.mp hr')]

lemma exists_perm_cons {r : Response β} (h : r ∈ rs) : ∃ rest, rs.Perm (r :: rest) := by
  obtain ⟨s, t, rfl⟩ := append_of_mem h
  exact ⟨s ++ t, perm_middle⟩

lemma interchange_of_flatMap {cols : List (Column β)}
    (h : ∀ rs' : List (Response β), rs'.Perm rs → rs'.flatMap (resultColumns names) = cols) :
    Interchange names rs := by
  intro r hr r' hr'
  obtain ⟨rest, hrest⟩ := exists_perm_cons hr
  rcases mem_cons.mp (hrest.mem_iff.mp hr') with rfl | hr'
  · rfl
  · obtain ⟨rest', hrest'⟩ := exists_perm_cons hr'
    have hfirst : (r :: r' :: rest').Perm rs := (hrest.trans (hrest'.cons r)).symm
    have heq := (h _ hfirst).trans (h _ ((Perm.swap ..).trans hfirst)).symm
    simp only [flatMap_cons, ← append_assoc] at heq
    exact append_cancel_right heq

lemma run_ok_of_perm (hrun : Merges names head run) (hfree : Interchange names rs)
    (hhead : SameHead head rs) (hperm : rs'.Perm rs) {res : QueryResult β}
    (h : run rs = .ok res) : run rs' = .ok res := by
  obtain ⟨m, hd, hm, hhd, hnames, rfl⟩ := (hrun rs res).mp h
  have hcollected := collected_of_collect hm
  obtain ⟨m', hm'⟩ := (hcollected.consistent.of_mem fun r => hperm.mem_iff.mp).collect_ok names
  have hcollected' := collected_of_collect hm'
  have hcols : m'.outCols = m.outCols := by
    rw [hcollected'.outCols, hcollected.outCols, hfree.flatMap_perm hperm]
  refine (hrun rs' _).mpr ⟨m', hd, hm', (hhead rs' hperm).trans hhd, hcols ▸ hnames, ?_⟩
  rw [hcols, hcollected.rows_perm hcollected' hperm]

/-- A run does not depend on the order if and only if it fails in every order, since the responses
are not consistent or cannot be put in the order of the plan, or nothing is to be told apart. -/
lemma orderFree_iff (hrun : Merges names head run)
    (hsome : ∀ rs' : List (Response β), rs'.Perm rs → (head rs').isSome) :
    (∀ rs' : List (Response β), rs'.Perm rs → (run rs').toOption = (run rs).toOption) ↔
    (Consistent rs → Orderable names rs → Interchange names rs ∧ SameHead head rs) := by
  constructor
  · rintro h hcons ⟨rs₀, hperm₀, hnames₀⟩
    obtain ⟨m₀, hm₀⟩ := (hcons.of_mem fun r => hperm₀.mem_iff.mp).collect_ok names
    obtain ⟨hd₀, hhd₀⟩ := Option.isSome_iff_exists.mp (hsome rs₀ hperm₀)
    have hrun₀ := (hrun rs₀ _).mpr ⟨m₀, hd₀, hm₀, hhd₀,
      (collected_of_collect hm₀).outCols ▸ hnames₀, rfl⟩
    have hall : ∀ rs' : List (Response β), rs'.Perm rs →
        rs'.flatMap (resultColumns names) = m₀.outCols ∧ head rs' = some hd₀ := by
      intro rs' hperm
      have hrun' := toOption_eq_some.mp
        ((h rs' hperm).trans ((h rs₀ hperm₀).symm.trans (toOption_eq_some.mpr hrun₀)))
      obtain ⟨m', hd', hm', hhd', -, heq⟩ := (hrun rs' _).mp hrun'
      simp only [QueryResult.mk.injEq] at heq
      obtain ⟨hstatus, hid, hcols, -⟩ := heq
      exact ⟨(collected_of_collect hm').outCols.symm.trans hcols.symm,
        hhd'.trans (congrArg some (Prod.ext hstatus.symm hid.symm))⟩
    exact ⟨interchange_of_flatMap fun rs' hperm => (hall rs' hperm).1,
      fun rs' hperm => (hall rs' hperm).2.trans (hall rs (.refl rs)).2.symm⟩
  · intro h rs' hperm
    refine Option.ext fun res => ?_
    rw [toOption_eq_some, toOption_eq_some]
    have hfree : ∀ rs₁ : List (Response β), rs₁.Perm rs → run rs₁ = .ok res →
        Interchange names rs ∧ SameHead head rs := by
      intro rs₁ hperm₁ hres
      obtain ⟨m, hd, hm, -, hnames, -⟩ := (hrun rs₁ res).mp hres
      have hcollected := collected_of_collect hm
      exact h (hcollected.consistent.of_mem fun r => hperm₁.mem_iff.mpr)
        ⟨rs₁, hperm₁, hcollected.outCols ▸ hnames⟩
    constructor
    · intro hres
      obtain ⟨hinter, hsame⟩ := hfree rs' hperm hres
      refine run_ok_of_perm hrun (fun r hr r' hr' => hinter r (hperm.mem_iff.mp hr) r'
        (hperm.mem_iff.mp hr')) (fun rs₁ hperm₁ => ?_) hperm.symm hres
      exact (hsame rs₁ (hperm₁.trans hperm)).trans (hsame rs' hperm).symm
    · intro hres
      obtain ⟨hinter, hsame⟩ := hfree rs (.refl rs) hres
      exact run_ok_of_perm hrun hinter hsame hperm hres

/-- The run returns an error or the columns of the plan, all of one length, from the responses, and
does the same in whatever order these arrive. -/
structure Faithful (names : List String) (run : List (Response β) → Except Failure (QueryResult β))
    (rs : List (Response β)) : Prop where
  not_panics : run rs ≠ .error .panics
  columns : ∀ res, run rs = .ok res → res.outColumns.map (·.name) = names ∧
    (∃ d, ∀ c ∈ res.outColumns, c.dimValue = some d) ∧
    ∀ c ∈ res.outColumns, ∃ r ∈ rs, c ∈ r.outColumns
  order : ∀ rs' : List (Response β), rs'.Perm rs → (run rs').toOption = (run rs).toOption

lemma columns_of_merges (hrun : Merges names head run) {res : QueryResult β}
    (h : run rs = .ok res) : res.outColumns.map (·.name) = names ∧
    (∃ d, ∀ c ∈ res.outColumns, c.dimValue = some d) ∧
    ∀ c ∈ res.outColumns, ∃ r ∈ rs, c ∈ r.outColumns := by
  obtain ⟨m, hd, hm, -, hnames, rfl⟩ := (hrun rs res).mp h
  have hcollected := collected_of_collect hm
  have hmem : ∀ c ∈ m.outCols, ∃ r ∈ rs, c ∈ r.outColumns := by
    intro c hc
    rw [hcollected.outCols, mem_flatMap] at hc
    obtain ⟨r, hr, hc⟩ := hc
    exact ⟨r, hr, (mem_filter.mp hc).1⟩
  obtain ⟨d, hd⟩ := hcollected.consistent.dims
  refine ⟨hnames, ⟨d, fun c hc => ?_⟩, hmem⟩
  obtain ⟨r, hr, hc⟩ := hmem c hc
  exact hd r hr c hc

lemma faithful_iff_orderFree (hrun : Merges names head run) (hpanic : run rs ≠ .error .panics)
    (hsome : ∀ rs' : List (Response β), rs'.Perm rs → (head rs').isSome) :
    Faithful names run rs ↔
      (Consistent rs → Orderable names rs → Interchange names rs ∧ SameHead head rs) := by
  rw [← orderFree_iff hrun hsome]
  exact ⟨Faithful.order, fun h => ⟨hpanic, fun _ => columns_of_merges hrun, h⟩⟩

lemma isSome_firstHead (h : rs ≠ []) (hperm : rs'.Perm rs) : (firstHead rs').isSome := by
  cases rs' with
  | nil => exact absurd hperm.symm.eq_nil h
  | cons r rest => rfl

lemma sameHead_first_iff : SameHead firstHead rs ↔
    ∀ r ∈ rs, ∀ r' ∈ rs, r.status = r'.status ∧ r.jobId = r'.jobId := by
  constructor
  · intro h r hr r' hr'
    obtain ⟨rest, hrest⟩ := exists_perm_cons hr
    obtain ⟨rest', hrest'⟩ := exists_perm_cons hr'
    have heq := (h _ hrest.symm).trans (h _ hrest'.symm).symm
    simpa [firstHead] using heq
  · intro h rs' hperm
    cases rs' with
    | nil => rw [hperm.symm.eq_nil]
    | cons r' rest' =>
      cases rs with
      | nil => exact absurd hperm.eq_nil (by simp)
      | cons r rest =>
        obtain ⟨hstatus, hjob⟩ := h r mem_cons_self r' (hperm.mem_iff.mp mem_cons_self)
        simp [firstHead, hstatus, hjob]

lemma core_not_panics (h : rs ≠ []) : runExecutionPlanCore false names rs ≠ .error .panics := by
  rw [runExecutionPlanCore]
  split
  · simp
  · split
    · next hhead => exact absurd (head?_eq_none_iff.mp hhead) h
    · exact checkedResult_not_panics

lemma reports_not_panics (sessionID : String) :
    mergeQueryResults sessionID names rs ≠ .error .panics := by
  rw [mergeQueryResults]
  split
  · simp
  · exact checkedResult_not_panics

/-- A call that waits for the engines is faithful if and only if it has engines and, should the
responses be consistent and fit the plan in some order, any two of them have the same status and
job and columns that stand in either order; for reports status and job do not matter. -/
theorem faithful_iff (names : List String) (sessionID : String) (rs : List (Response β)) :
    (Faithful names (runExecutionPlanCore false names) rs ↔
      rs ≠ [] ∧ (Consistent rs → Orderable names rs → Interchange names rs ∧
        ∀ r ∈ rs, ∀ r' ∈ rs, r.status = r'.status ∧ r.jobId = r'.jobId)) ∧
    (Faithful names (mergeQueryResults sessionID names) rs ↔
      (Consistent rs → Orderable names rs → Interchange names rs)) := by
  constructor
  · by_cases hne : rs = []
    · subst hne
      exact iff_of_false (fun h => h.not_panics rfl) (fun h => h.1 rfl)
    · rw [faithful_iff_orderFree (merges_core names) (core_not_panics hne)
        (fun rs' => isSome_firstHead hne), sameHead_first_iff]
      exact (and_iff_right hne).symm
  · rw [faithful_iff_orderFree (merges_reports sessionID names) (reports_not_panics sessionID)
      (fun _ _ => rfl)]
    simp only [SameHead, implies_true, and_true]

def column (name : String) : Response Unit := { outColumns := [⟨name, some 1, ()⟩] }

/-- Two engines with a column each: only one order of their responses fits. -/
theorem not_faithful_twoColumns :
    ¬Faithful ["a", "b"] (runExecutionPlanCore false ["a", "b"]) [column "a", column "b"] :=
  fun h => absurd (congrArg Option.isSome (h.order [column "b", column "a"] (.swap ..))) (by decide)

end Scql.ResultMerging
