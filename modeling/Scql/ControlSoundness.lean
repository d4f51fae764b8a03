import Scql.PlanDependencies

/-! # Encrypted sources stay hidden

If inference succeeds, an output column whose value depends on a source column that is
encrypted for a party is encrypted for this party. The invariant is about the level
`Encrypt` only: no node lowers it, and every combination of levels absorbs it. -/
namespace Scql.ControlInference

open MapRange ColumnControl Planner CCLLevel Fallible List
open Option (bind_eq_some_iff elim_some isSome_iff_exists map_eq_some_iff some)
open AList (lookup_insert lookup_insert_ne lookup_isSome mem_lookup_iff)

variable {p : PartyCode} {cc : CCL}

lemma encrypt_setPlain {q : PartyCode} {c : Prop} [Decidable c]
  (hc : c → cc.levelFor q ≠ Encrypt) (h : cc.levelFor p = Encrypt) :
  (if c then cc.setLevelForParty q Plain else cc).levelFor p = Encrypt := by
  split
  · rename_i hcond
    have hne : p ≠ q := by
      intro heq
      exact hc hcond (heq ▸ h)
    rw [CCL.levelFor_set_of_ne _ _ _ _ hne, h]
  · exact h

variable {level : CCLLevel}

lemma encrypt_setPlainWhen (hlevel : level ≠ Encrypt)
  (h : cc.levelFor p = Encrypt) : (setPlainWhen level cc).levelFor p = Encrypt := by
  rw [setPlainWhen]
  refine foldlRecOn (motive := fun cc : CCL => cc.levelFor p = Encrypt) _ _ h ?_
  intro cc h q _
  exact encrypt_setPlain (fun hq => hq ▸ hlevel) h

lemma encrypt_revealPayload {sources : List PartyCode} {visible : List (PartyCode × PartyCode)}
  (h : cc.levelFor p = Encrypt) : (revealPayload sources visible cc).levelFor p = Encrypt := by
  rw [revealPayload]
  refine foldlRecOn (motive := fun cc : CCL => cc.levelFor p = Encrypt) _ _ h ?_
  intro cc h q _
  exact encrypt_setPlain (fun hq => by simp [hq.1]) h

variable {cc' : CCL}

lemma encrypt_checkKey {touch promote : Bool} {col : ℕ} {parties : List PartyCode}
  (hrun : checkKey touch promote col parties cc = .ok cc') (h : cc.levelFor p = Encrypt) :
  cc'.levelFor p = Encrypt := by
  refine foldlM_invariant (P := fun cc => cc.levelFor p = Encrypt) ?_ h hrun
  intro q _ cc cc' h hstep
  have hset :=
    encrypt_setPlain (c := cc.levelFor q = Join ∧ promote) (q := q) (fun hq => by simp [hq.1]) h
  dsimp only at hstep
  generalize (if cc.levelFor q = Join ∧ promote then cc.setLevelForParty q Plain else cc) = cc₁
    at hstep hset
  split at hstep
  · cases hstep
  · cases hstep
    exact hset

lemma encrypt_foldl {f : CCL → CCL → CCL} (hf : ∀ a b : CCL, (f a b).levelFor p = Encrypt ↔
    a.levelFor p = Encrypt ∨ b.levelFor p = Encrypt) (ccs : List CCL) (cc : CCL) :
  (ccs.foldl f cc).levelFor p = Encrypt ↔ cc.levelFor p = Encrypt ∨
    ∃ c ∈ ccs, c.levelFor p = Encrypt := by
  induction ccs generalizing cc with
  | nil => simp
  | cons c ccs ih => rw [foldl_cons, ih, hf]; simp [or_assoc]

lemma encrypt_updateMoreRestricted (a b : CCL) :
  (a.updateMoreRestrictedCCLFrom b).levelFor p = Encrypt ↔
    a.levelFor p = Encrypt ∨ b.levelFor p = Encrypt := by
  rw [CCL.levelFor_updateMoreRestrictedCCLFrom, lookUpVis_eq_encrypt_iff]

lemma encrypt_inferCompare (a b : CCL) : (a.inferCompareFuncCCL b).levelFor p = Encrypt ↔
  a.levelFor p = Encrypt ∨ b.levelFor p = Encrypt := by
  rw [CCL.levelFor_inferCompareFuncCCL, inferCompareFunc_eq_encrypt_iff]

lemma encrypt_foldl_tail {ccs : List CCL} {c : CCL} (hc : c ∈ ccs) (h : c.levelFor p = Encrypt) :
  (ccs.tail.foldl CCL.updateMoreRestrictedCCLFrom (ccs.headD CCL.newCCL)).levelFor p = Encrypt := by
  rw [encrypt_foldl encrypt_updateMoreRestricted]
  cases ccs with
  | nil => simp at hc
  | cons d ccs =>
    rcases mem_cons.mp hc with rfl | hc
    · exact .inl h
    · exact .inr ⟨c, hc, h⟩

/-- The columns in `T` are encrypted for a party. -/
def Protects (lookup : ℕ → Option CCL) (T : ℕ → Prop) (p : PartyCode) : Prop :=
  ∀ id cc, lookup id = some cc → T id → cc.levelFor p = Encrypt

lemma encrypt_scalarFunc {f : FuncName} {ccs : List CCL} {cc : CCL} (hcc : cc ∈ ccs)
  (h : cc.levelFor p = Encrypt) : (inferScalarFuncCCLUsingArgCCL f ccs).levelFor p = Encrypt := by
  cases ccs with
  | nil => simp at hcc
  | cons c ccs =>
    have hmem : c.levelFor p = Encrypt ∨ ∃ d ∈ ccs, d.levelFor p = Encrypt := by
      rcases mem_cons.mp hcc with rfl | hcc
      · exact .inl h
      · exact .inr ⟨cc, hcc, h⟩
    rw [inferScalarFuncCCLUsingArgCCL]
    split
    · exact (encrypt_foldl encrypt_inferCompare ccs c).mpr hmem
    · exact (encrypt_foldl encrypt_updateMoreRestricted ccs c).mpr hmem

variable {env : CclEnv} {T : ℕ → Prop}

mutual
variable {x : Column}

lemma encrypt_inferExpression (hT : Protects env.lookup T p) (e : Expr) {cc : CCL}
  (h : inferExpressionCCL env e = .ok cc) (hx : x ∈ e.extractColumns)
  (hTx : T x.uniqueID) : cc.levelFor p = Encrypt := by
  cases e with
  | column c =>
    rw [Expr.extractColumns, mem_singleton] at hx
    subst hx
    rw [inferExpressionCCL] at h
    split at h
    · cases h
    · rename_i hlookup
      cases h
      exact hT _ _ hlookup hTx
  | correlatedColumn c | constant d => cases hx
  | scalarFunction f args =>
    cases args with
    | nil => cases hx
    | cons a as =>
      simp only [inferExpressionCCL, bind_eq_ok] at h
      obtain ⟨c, hc, cs, hcs, h⟩ := h
      cases h
      rw [Expr.extractColumns, Expr.extractColumnsList] at hx
      rcases mem_append.mp hx with hx | hx
      · exact encrypt_scalarFunc mem_cons_self (encrypt_inferExpression hT a hc hx hTx)
      · obtain ⟨d, hd, henc⟩ := encrypt_inferExpressions hT as hcs hx hTx
        exact encrypt_scalarFunc (mem_cons_of_mem _ hd) henc

lemma encrypt_inferExpressions (hT : Protects env.lookup T p) (es : List Expr)
  {ccs : List CCL} (h : inferExpressionCCLs env es = .ok ccs)
  (hx : x ∈ Expr.extractColumnsList es) (hTx : T x.uniqueID) :
    ∃ cc ∈ ccs, cc.levelFor p = Encrypt := by
  cases es with
  | nil => cases hx
  | cons e es =>
    simp only [inferExpressionCCLs, bind_eq_ok] at h
    obtain ⟨c, hc, cs, hcs, h⟩ := h
    cases h
    rw [Expr.extractColumnsList] at hx
    rcases mem_append.mp hx with hx | hx
    · exact ⟨c, mem_cons_self, encrypt_inferExpression hT e hc hx hTx⟩
    · obtain ⟨d, hd, henc⟩ := encrypt_inferExpressions hT es hcs hx hTx
      exact ⟨d, mem_cons_of_mem _ hd, henc⟩
end

structure Extends (st st' : InferState) : Prop where
  length_le : st.heap.length ≤ st'.heap.length
  keep : ∀ a < st.heap.length, ∀ p, (st.read a).levelFor p = Encrypt →
    (st'.read a).levelFor p = Encrypt

variable {st st' st'' : InferState}

lemma read_congr (h : st'.heap = st.heap) (a : ℕ) : st'.read a = st.read a := by
  rw [InferState.read, InferState.read, h]

lemma Extends.of_heap_eq (h : st'.heap = st.heap) : Extends st st' := by
  refine ⟨h ▸ le_rfl, ?_⟩
  intro a _ p hp
  rwa [read_congr h]

lemma Extends.refl (st : InferState) : Extends st st := .of_heap_eq rfl

lemma Extends.trans (h : Extends st st') (h' : Extends st' st'') : Extends st st'' := by
  refine ⟨h.length_le.trans h'.length_le, ?_⟩
  intro a ha p hp
  exact h'.keep a (lt_of_lt_of_le ha h.length_le) p (h.keep a ha p hp)

variable {a : ℕ}

lemma read_alloc_of_lt (cc : CCL) (ha : a < st.heap.length) : (st.alloc cc).read a = st.read a := by
  simp [InferState.read, InferState.alloc, getElem?_append_left ha]

@[simp] lemma read_alloc_length (cc : CCL) : (st.alloc cc).read st.heap.length = cc := by
  simp [InferState.read, InferState.alloc]

lemma extends_alloc (cc : CCL) : Extends st (st.alloc cc) := by
  refine ⟨by simp [InferState.alloc], ?_⟩
  intro a ha p hp
  rwa [read_alloc_of_lt cc ha]

lemma read_write (a b : ℕ) (cc : CCL) : (st.write a cc).read b =
  if a = b ∧ b < st.heap.length then cc else st.read b := by
  simp only [InferState.read, InferState.write, getD_eq_getElem?_getD, getElem?_set]
  by_cases hab : a = b
  · subst hab
    by_cases ha : a < st.heap.length <;> simp [ha]
  · simp [hab]

lemma extends_write {cc : CCL}
  (h : ∀ p, (st.read a).levelFor p = Encrypt → cc.levelFor p = Encrypt) :
  Extends st (st.write a cc) := by
  refine ⟨by simp [InferState.write], ?_⟩
  intro b hb p hp
  rw [read_write]
  split
  · rename_i hab
    exact h p (hab.1 ▸ hp)
  · exact hp

/-- The column depends on a source column that is encrypted for the party. -/
def Tainted (ch : Channels) (env : BuilderEnv) (p : LogicalPlan) (party : PartyCode) (id : ℕ) :
    Prop :=
  ∃ s cc, env.originCCL.lookup s = some cc ∧ cc.levelFor party = Encrypt ∧ Depends ch p id s

/-- The dependencies that inference accounts for: the group keys of a `DISTINCT` and the
partition keys of a window are left out. -/
def Channels.checked : Channels := ⟨false, false⟩

variable {env : BuilderEnv}

/-- The column controls `m` of plan `p` encrypt what depends on an encrypted source. -/
structure Sound (env : BuilderEnv) (p : LogicalPlan) (m : CclMap) (st : InferState) : Prop where
  valid : ∀ id a, m.lookup id = some a → a < st.heap.length ∧ id ∈ p.allIds
  encrypted : ∀ id a party, m.lookup id = some a → Tainted Channels.checked env p party id →
    (st.read a).levelFor party = Encrypt

variable {p : LogicalPlan} {m : CclMap}

/-- A column control that may be stored for a column of `p`. -/
def Fits (env : BuilderEnv) (p : LogicalPlan) (e : ℕ × CCL) : Prop :=
  e.1 ∈ p.allIds ∧ ∀ party, Tainted Channels.checked env p party e.1 → e.2.levelFor party = Encrypt

lemma Sound.empty (env : BuilderEnv) (p : LogicalPlan) (st : InferState) : Sound env p ∅ st :=
  ⟨fun _ _ h => by simp at h, fun _ _ _ h => by simp at h⟩

lemma Sound.mono (h : Sound env p m st) (hext : Extends st st') : Sound env p m st' := by
  constructor
  · intro id a ha
    exact (h.valid id a ha).imp_left (fun hlt => lt_of_lt_of_le hlt hext.length_le)
  · intro id a party ha htaint
    exact hext.keep a (h.valid id a ha).1 party (h.encrypted id a party ha htaint)

variable {m' : CclMap}

lemma Sound.of_lookup (h : Sound env p m st)
  (hm : ∀ id a, m'.lookup id = some a → m.lookup id = some a) : Sound env p m' st :=
  ⟨fun id a ha => h.valid id a (hm id a ha), fun id a party ha => h.encrypted id a party
    (hm id a ha)⟩

variable {id : ℕ}

lemma of_lookup_insert {β : Type} {m : AList (fun _ : ℕ => β)} {k : ℕ} {b c : β}
  (h : (m.insert k b).lookup id = some c) : id = k ∧ b = c ∨ m.lookup id = some c := by
  by_cases hid : id = k
  · subst hid
    exact .inl ⟨rfl, by simpa using h⟩
  · exact .inr (by rwa [lookup_insert_ne hid] at h)

lemma Sound.insert (h : Sound env p m st) (ha : a < st.heap.length)
  (hfits : Fits env p (id, st.read a)) : Sound env p (m.insert id a) st := by
  constructor
  · intro id' a' hlookup
    obtain ⟨rfl, rfl⟩ | hlookup := of_lookup_insert hlookup
    · exact ⟨ha, hfits.1⟩
    · exact h.valid id' a' hlookup
  · intro id' a' party hlookup htaint
    obtain ⟨rfl, rfl⟩ | hlookup := of_lookup_insert hlookup
    · exact hfits.2 party htaint
    · exact h.encrypted id' a' party hlookup htaint

variable {e : ℕ × CCL}

lemma Sound.bind (h : Sound env p m st) (hfits : Fits env p e) :
  Sound env p (InferState.bind (m, st) e).1 (InferState.bind (m, st) e).2 := by
  refine (h.mono (extends_alloc e.2)).insert (by simp [InferState.alloc]) ?_
  rw [read_alloc_length]
  exact hfits

lemma sound_bindAll (st : InferState) {values : List (ℕ × CCL)} (h : ∀ e ∈ values, Fits env p e) :
  Sound env p (st.bindAll values).1 (st.bindAll values).2 ∧ Extends st (st.bindAll values).2 := by
  refine foldlRecOn (motive := fun acc : CclMap × InferState =>
    Sound env p acc.1 acc.2 ∧ Extends st acc.2) values InferState.bind
    ⟨Sound.empty env p st, .refl st⟩ ?_
  intro acc ⟨hsound, hext⟩ e he
  exact ⟨hsound.bind (h e he), hext.trans (extends_alloc e.2)⟩

@[simp] lemma bindAll_tracer (st : InferState) (values : List (ℕ × CCL)) :
  (st.bindAll values).2.tracer = st.tracer :=
  foldlRecOn (motive := fun acc : CclMap × InferState => acc.2.tracer = st.tracer) values
    InferState.bind rfl (fun _ h _ _ => h)

lemma Sound.protects (h : Sound env p m st) (party : PartyCode) :
  Protects (st.lookup m) (Tainted Channels.checked env p party) party := by
  intro id cc hlookup htaint
  obtain ⟨a, ha, rfl⟩ := map_eq_some_iff.mp hlookup
  exact h.encrypted id a party ha htaint

lemma lookup_of_extractChildCCL {children : List LNode} (h : extractChildCCL children = .ok m)
  (ha : m.lookup id = some a) : ∃ c ∈ children, c.ccl.lookup id = some a := by
  refine foldlM_invariant (P := fun m : CclMap => ∀ id a, m.lookup id = some a →
    ∃ c ∈ children, c.ccl.lookup id = some a) ?_ ?_ h id a ha
  · intro e he acc acc' hacc hstep id a ha
    split at hstep
    · cases hstep
    · cases hstep
      obtain ⟨rfl, rfl⟩ | ha := of_lookup_insert ha
      · obtain ⟨c, hc, hentry⟩ := mem_flatMap.mp he
        exact ⟨c, hc, mem_lookup_iff.mpr hentry⟩
      · exact hacc id a ha
  · intro id a ha
    simp at ha

variable {c : LNode} {m : CclMap}

lemma Sound.extract (hc : Sound env p c.ccl st) (h : extractChildCCL [c] = .ok m) :
    Sound env p m st := by
  refine hc.of_lookup fun id a ha => ?_
  obtain ⟨c', hc', ha'⟩ := lookup_of_extractChildCCL h ha
  exact mem_singleton.mp hc' ▸ ha'

lemma Sound.pass {child : LogicalPlan} (h : Sound env child m st) (hids : child.allIds ⊆ p.allIds)
  (hdep : ∀ id s, Depends Channels.checked p id s → Depends Channels.checked child id s) :
  Sound env p m st := by
  refine ⟨fun id a ha => (h.valid id a ha).imp_right (fun hid => hids hid), ?_⟩
  intro id a party ha ⟨s, cc, hs, hcc, hd⟩
  exact h.encrypted id a party ha ⟨s, cc, hs, hcc, hdep id s hd⟩

variable {child : LogicalPlan} {values : List (ℕ × CCL)} {e : ℕ × CCL} {ds : DataSource}

lemma fits_dataSource (hwf : WellIdentified (.dataSource ds))
  (h : dataSourceCCL env ds = .ok values) (he : e ∈ values) : Fits env (.dataSource ds) e := by
  cases hwf with
  | dataSource _ functional =>
    obtain ⟨c, hc, hrun⟩ := mem_of_mapM_ok h he
    split at hrun
    · cases hrun
    · rename_i cc hcc
      cases hrun
      refine ⟨mem_map_of_mem hc, ?_⟩
      intro party ⟨s, cc', hs, henc, hdep⟩
      generalize hid : c.uniqueID = id at hdep
      cases hdep with
      | source hc' =>
        rw [functional _ hc _ hc' hid, hs, some.injEq] at hcc
        exact hcc ▸ henc

variable {schema : List Column} {party : PartyCode}

lemma fits_restrictColumns {lookup : ℕ → Option CCL} {cond : CCL}
    (hids : ∀ c ∈ schema, c.uniqueID ∈ p.allIds)
  (hT : ∀ party, Protects lookup (Tainted Channels.checked env p party) party)
  (h : restrictColumns lookup cond schema = .ok values) (he : e ∈ values) : Fits env p e := by
  obtain ⟨c, hc, hrun⟩ := mem_of_mapM_ok h he
  split at hrun
  · cases hrun
  · rename_i cc hcc
    cases hrun
    refine ⟨hids c hc, ?_⟩
    intro party htaint
    exact (encrypt_updateMoreRestricted cc cond).mpr (.inl (hT party _ _ hcc htaint))

variable {exprs : List Expr}

lemma fits_projection (hwf : WellIdentified (.projection exprs schema child))
  (hm : Sound env child m st) (h : projectionCCL (st.env m) exprs schema = .ok values)
  (he : e ∈ values) : Fits env (.projection exprs schema child) e := by
  cases hwf with
  | projection _ _ _ _ _ _ functional =>
    obtain ⟨q, hq, hrun⟩ := mem_of_mapM_ok h he
    obtain ⟨cc, hcc, hrun⟩ := bind_eq_ok.mp hrun
    cases hrun
    refine ⟨mem_append_left _ (mem_map_of_mem (of_mem_zip hq).1), ?_⟩
    intro party ⟨s, src, hs, henc, hdep⟩
    generalize hid : q.1.uniqueID = id at hdep
    cases hdep with
    | projection hq' hx hdep =>
      rw [← functional q hq _ hq' hid] at hx
      have henv : Protects (st.env m).lookup _ party := hm.protects party
      exact encrypt_inferExpression henv q.2 hcc hx ⟨s, src, hs, henc, hdep⟩

variable {last : Column}

lemma fits_window {info : WindowInfo} {cc : CCL}
  (hwf : WellIdentified (.window info schema child)) (hm : Sound env child m st)
  (hlast : schema.getLast? = some last) (h : orderCCL (st.lookup m) info.orderBy = .ok cc)
  (he : e ∈ m.entries.map (fun e => (e.1, st.read e.2)) ++ [(last.uniqueID, setPlainWhen Rank cc)])
  : Fits env (.window info schema child) e := by
  cases hwf with
  | window _ _ hc merged fresh =>
    rcases mem_append.mp he with he | he
    · obtain ⟨⟨id, a⟩, hentry, rfl⟩ := mem_map.mp he
      have hlookup : m.lookup id = some a := mem_lookup_iff.mpr hentry
      have hid := (hm.valid id a hlookup).2
      refine ⟨mem_append_right _ hid, ?_⟩
      intro party ⟨s, src, hs, henc, hdep⟩
      refine hm.encrypted id a party hlookup ⟨s, src, hs, henc, ?_⟩
      dsimp only at hdep
      cases hdep with
      | window _ hdep => exact hdep
      | orderKey hc _ _ => exact absurd hid (fresh _ hc)
      | partitionKey hch => cases hch
    · rw [mem_singleton] at he
      subst he
      refine ⟨mem_append_left _ (mem_map_of_mem (mem_of_getLast? hlast)), ?_⟩
      intro party ⟨s, src, hs, henc, hdep⟩
      apply encrypt_setPlainWhen (by decide)
      obtain ⟨ccs, hccs, hrun⟩ := bind_eq_ok.mp h
      cases hrun
      generalize hid : last.uniqueID = id at hdep
      cases hdep with
      | window _ hdep => exact absurd (hid ▸ hdep.mem_allIds) (fresh _ hlast)
      | orderKey _ hitem hdep =>
        obtain ⟨c, hc, hkey⟩ := mapM_ok_mem hccs hitem
        split at hkey
        · cases hkey
        · rename_i hlookup
          cases hkey
          exact encrypt_foldl_tail hc (hm.protects party _ _ hlookup ⟨s, src, hs, henc, hdep⟩)
      | partitionKey hch => cases hch

lemma protects_childCCLAfterGroupBy {cenv : CclEnv} {T : ℕ → Prop}
  (h : Protects cenv.lookup T party) (keys : List Column) :
  Protects (childCCLAfterGroupBy cenv keys).lookup T party := by
  intro id cc hlookup hT
  obtain ⟨cc', hcc', rfl⟩ := map_eq_some_iff.mp hlookup
  have henc := h id cc' hcc' hT
  split
  · exact encrypt_setPlainWhen (by decide) henc
  · exact henc

variable {o : RangeOrder} {site : ℕ}

lemma encrypt_aggFunc {info : AggInfo} {ccs keys : List CCL}
  {f : AggFuncDesc} {arg cc : CCL} (hname : f.name ≠ .Count)
  (h : aggFuncCCL o site info ccs keys f arg = .ok cc) (harg : arg.levelFor party = Encrypt) :
  cc.levelFor party = Encrypt := by
  have hkeys := (encrypt_foldl encrypt_updateMoreRestricted keys arg).mpr (.inl harg)
  rw [aggFuncCCL] at h
  split at h
  · cases h
    exact encrypt_setPlainWhen (by decide) harg
  · split at h <;> rename_i hf
    · exact absurd hf hname
    · cases h
      exact hkeys
    all_goals first
      | cases h
        exact encrypt_setPlainWhen (by decide) hkeys
      | cases h

lemma fits_aggregation {info : AggInfo}
  (hwf : WellIdentified (.aggregation info schema child)) (hm : Sound env child m st)
  (h : aggregationCCL o site info schema (st.env m) = .ok values) (he : e ∈ values) :
  Fits env (.aggregation info schema child) e := by
  cases hwf with
  | aggregation _ _ _ _ _ functional =>
    obtain ⟨keys, hkeys, h⟩ := bind_eq_ok.mp h
    obtain ⟨⟨q, i⟩, hq, hrun⟩ := mem_of_mapM_ok h he
    replace hq := fst_mem_of_mem_zipIdx hq
    cases hargs : q.2.args with
    | nil => simp [hargs] at hrun
    | cons a as =>
      simp only [hargs, bind_eq_ok] at hrun
      obtain ⟨arg, harg, cc, hcc, hrun⟩ := hrun
      cases hrun
      refine ⟨mem_append_left _ (mem_map_of_mem (of_mem_zip hq).1), ?_⟩
      intro party ⟨s, src, hs, henc, hdep⟩
      have henv : Protects (childCCLAfterGroupBy (st.env m) _).lookup _ party :=
        protects_childCCLAfterGroupBy (hm.protects party)
          (info.groupByItems.flatMap (·.extractColumns))
      generalize hid : q.1.uniqueID = id at hdep
      cases hdep with
      | aggArgument hq' hname ha hx hdep =>
        rw [← functional q hq _ hq' hid] at hname ha
        rw [hargs, head?_cons, some.injEq] at ha
        subst ha
        exact encrypt_aggFunc hname hcc
          (encrypt_inferExpression henv a harg hx ⟨s, src, hs, henc, hdep⟩)
      | @groupKey _ _ _ _ g x _ hq' hname hdistinct hg hx hdep =>
        rw [← functional q hq _ hq' hid] at hname
        have hnot : info.producedByDistinct = false :=
          Bool.eq_false_iff.mpr (fun h => by cases hdistinct h)
        obtain ⟨key, hkey, hlookup⟩ := mapM_ok_mem hkeys (mem_flatMap.mpr ⟨g, hg, hx⟩)
        split at hlookup
        · cases hlookup
        · rename_i hlookup'
          cases hlookup
          have hkey' := henv _ _ hlookup' ⟨s, src, hs, henc, hdep⟩
          simp only [aggFuncCCL, hnot, hname, Bool.false_eq_true, if_false] at hcc
          cases hcc
          exact (encrypt_foldl encrypt_updateMoreRestricted _ arg).mpr (.inr ⟨key, hkey, hkey'⟩)

lemma encrypt_unionFold {i : ℕ} {c : Column} {children : List (LogicalPlan × (ℕ → Option CCL))}
  {cc : CCL} (h : children.foldlM (unionBranch i c) cc = .ok cc')
  (henc : cc.levelFor party = Encrypt ∨ ∃ child ∈ children, ∀ x d, child.1.schema[i]? = some x →
    child.2 x.uniqueID = some d → d.levelFor party = Encrypt)
  : cc'.levelFor party = Encrypt := by
  induction children generalizing cc with
  | nil =>
    cases h
    simpa using henc
  | cons child children ih =>
    rw [foldlM_cons] at h
    obtain ⟨cc₁, hstep, h⟩ := bind_eq_ok.mp h
    rw [unionBranch] at hstep
    split at hstep
    · cases hstep
    · rename_i d hd
      cases hstep
      apply ih h
      rw [encrypt_updateMoreRestricted]
      rcases henc with henc | ⟨child', hchild', henc⟩
      · exact .inl (.inl henc)
      · rcases mem_cons.mp hchild' with rfl | hchild'
        · obtain ⟨x, hx, hlookup⟩ := bind_eq_some_iff.mp hd
          exact .inl (.inr (henc x d hx hlookup))
        · exact .inr ⟨child', hchild', henc⟩

lemma fits_union {plans : List LogicalPlan} {nodes : List LNode}
  (hwf : WellIdentified (.unionAll schema plans))
  (hnodes : Forall₂ (fun p n => n.lp.schema = p.schema ∧ Sound env p n.ccl st) plans nodes)
  (h : unionCCL schema nodes st = .ok values) (he : e ∈ values) :
    Fits env (.unionAll schema plans) e := by
  cases hwf with
  | unionAll _ _ nodup _ _ =>
    obtain ⟨⟨c, i⟩, hci, hrun⟩ := mem_of_mapM_ok h he
    have hi : schema[i]? = some c := by simpa using mem_zipIdx_iff_getElem?.mp hci
    obtain ⟨cc, hcc, hrun⟩ := bind_eq_ok.mp hrun
    split at hrun
    · cases hrun
    · cases hrun
      refine ⟨mem_append_left _ (mem_map_of_mem (mem_of_getElem? hi)), ?_⟩
      intro party ⟨s, src, hs, henc, hdep⟩
      generalize hid : c.uniqueID = id at hdep
      cases hdep with
      | @branch _ _ child j c' x _ hchild hc hx hdep =>
        have hij : i = j := by
          have hlt : i < schema.length := (List.getElem?_eq_some_iff.mp hi).1
          apply (getElem?_inj (by simpa using hlt) nodup).mp
          simp [hi, hc, hid]
        obtain ⟨n, hn, hschema, hsound⟩ := exists_of_forall₂ hnodes hchild
        apply encrypt_unionFold hcc
        refine .inr ⟨_, mem_map_of_mem hn, ?_⟩
        intro x' d hx' hd
        rw [hschema, hij, hx, some.injEq] at hx'
        exact hsound.protects party _ d hd ⟨s, src, hs, henc, hx' ▸ hdep⟩

variable {left right : LogicalPlan} {l r : LNode} {childCCL : CclMap} {t : ColumnTracer}

lemma findThenRecordRootArg_roots {n : LNode} {t' : ColumnTracer}
  (h : findThenRecordRootArg n t = .ok t') {k x : ℕ} (hk : t'.rootArgMap.lookup k = some x) :
  (k, x) ∈ n.lp.ownRootPairs ∨ t.rootArgMap.lookup k = some x := by
  rw [findThenRecordRootArg] at h
  split at h
  · rename_i exprs schema child hlp
    rw [hlp]
    refine foldlM_invariant (P := fun t' : ColumnTracer => ∀ k x,
      t'.rootArgMap.lookup k = some x → (k, x) ∈ (LogicalPlan.projection exprs schema
        child).ownRootPairs ∨ t.rootArgMap.lookup k = some x) ?_ (fun k x hk => .inr hk) h k x hk
    intro q hq t₁ t₂ ih hstep k x hk
    rw [recordRootArg] at hstep
    split at hstep
    · rename_i f args hf
      obtain ⟨root, hroot, hstep⟩ := bind_eq_ok.mp hstep
      cases hstep
      cases root with
      | none => exact ih k x hk
      | some root =>
        by_cases hkey : k = q.1.uniqueID
        · subst hkey
          have hx : root = x := by simpa [ColumnTracer.setRootArg] using hk
          refine .inl (mem_filterMap.mpr ⟨q, hq, ?_⟩)
          simp only [hf, hroot, hx]
        · apply ih k x
          rwa [elim_some, ColumnTracer.setRootArg, lookup_insert_ne hkey] at hk
    · cases hstep
      exact ih k x hk
  · cases h
    exact .inr hk

@[simp] lemma addSourceParties_rootArgMap (t : ColumnTracer) (id : ℕ) (ps : List PartyCode) :
  (t.addSourceParties id ps).rootArgMap = t.rootArgMap := rfl

@[simp] lemma addKeySourceParties_rootArgMap (t : ColumnTracer) (pairs : List (ℕ × ℕ)) :
  (addKeySourceParties t pairs).rootArgMap = t.rootArgMap := by
  rw [addKeySourceParties]
  refine foldlRecOn (motive := fun t' : ColumnTracer => t'.rootArgMap = t.rootArgMap) _ _ rfl ?_
  intro t' h e _
  exact h

structure Sides (env : BuilderEnv) (left right : LogicalPlan) (m : CclMap) (st : InferState) :
    Prop where
  side : ∀ id a, m.lookup id = some a → a < st.heap.length ∧
    ∃ child, (child = left ∨ child = right) ∧ id ∈ child.allIds ∧
      ∀ party, Tainted Channels.checked env child party id → (st.read a).levelFor party = Encrypt

lemma Sides.extract (hl : Sound env left l.ccl st) (hr : Sound env right r.ccl st)
  (h : extractChildCCL [l, r] = .ok childCCL) : Sides env left right childCCL st := by
  constructor
  intro id a ha
  obtain ⟨c, hc, ha⟩ := lookup_of_extractChildCCL h ha
  rcases mem_pair.mp hc with rfl | rfl
  · obtain ⟨hlt, hid⟩ := hl.valid id a ha
    exact ⟨hlt, left, .inl rfl, hid, fun party => hl.encrypted id a party ha⟩
  · obtain ⟨hlt, hid⟩ := hr.valid id a ha
    exact ⟨hlt, right, .inr rfl, hid, fun party => hr.encrypted id a party ha⟩

/-- A key's column control encrypts what the key column depends on below the join. -/
def KeyFits (env : BuilderEnv) (left right : LogicalPlan) (e : ℕ × CCL) : Prop :=
  ∃ child, (child = left ∨ child = right) ∧ e.1 ∈ child.ids ∧
    ∀ party, Tainted Channels.checked env child party e.1 → e.2.levelFor party = Encrypt

lemma KeyFits.mono (h : KeyFits env left right (id, cc))
  (hcc : ∀ party, cc.levelFor party = Encrypt → cc'.levelFor party = Encrypt) :
  KeyFits env left right (id, cc') := by
  obtain ⟨child, hchild, hid, henc⟩ := h
  exact ⟨child, hchild, hid, fun party htaint => hcc party (henc party htaint)⟩

variable {info : JoinInfo} {ch : Channels} {id : ℕ}

lemma allIds_subset_join (hchild : child = left ∨ child = right) :
  child.allIds ⊆ (LogicalPlan.join info schema left right).allIds := by
  intro id hid
  rcases hchild with rfl | rfl
  · exact mem_append_right _ (mem_append_left _ hid)
  · exact mem_append_right _ (mem_append_right _ hid)

lemma Tainted.mem_allIds (h : Tainted ch env p party id) : id ∈ p.allIds := by
  obtain ⟨s, src, hs, henc, hdep⟩ := h
  exact hdep.mem_allIds

lemma lookup_of_shareColumns (h : shareColumns m schema = .ok m')
  (ha : m'.lookup id = some a) : m.lookup id = some a := by
  refine foldlM_invariant (P := fun m' : CclMap => ∀ id a, m'.lookup id = some a →
    m.lookup id = some a) ?_ ?_ h id a ha
  · intro c _ acc acc' hacc hstep id a ha
    split at hstep
    · cases hstep
    · rename_i b hb
      cases hstep
      obtain ⟨rfl, rfl⟩ | ha := of_lookup_insert ha
      · exact hb
      · exact hacc id a ha
  · intro id a ha
    simp at ha

section

variable (disjoint : ∀ id ∈ left.allIds, id ∉ right.allIds)
include disjoint

lemma Tainted.of_join (hchild : child = left ∨ child = right) (hid : id ∈ child.allIds)
  (h : Tainted ch env (.join info schema left right) party id) : Tainted ch env child party id := by
  obtain ⟨s, src, hs, henc, hdep⟩ := h
  refine ⟨s, src, hs, henc, ?_⟩
  cases hdep with
  | join hchild' _ hdep => exact same_side disjoint hchild' hchild hdep.mem_allIds hid ▸ hdep

lemma Tainted.of_apply
  (fresh : ∀ c, info.resultColumn schema = some c → c.uniqueID ∉ left.allIds ∧
    c.uniqueID ∉ right.allIds)
  (hchild : child = left ∨ child = right) (hid : id ∈ child.allIds)
  (h : Tainted ch env (.apply info schema left right) party id) :
    Tainted ch env child party id := by
  obtain ⟨s, src, hs, henc, hdep⟩ := h
  refine ⟨s, src, hs, henc, ?_⟩
  cases hdep with
  | apply hchild' _ hdep => exact same_side disjoint hchild' hchild hdep.mem_allIds hid ▸ hdep
  | applyResult _ hlast _ _ _ =>
    rcases hchild with rfl | rfl
    · exact absurd hid (fresh _ hlast).1
    · exact absurd hid (fresh _ hlast).2

variable (hs : Sides env left right childCCL st)
include hs

lemma Sides.keyFits (hlookup : st.lookup childCCL id = some cc)
  (hid : id ∈ left.ids ∨ id ∈ right.ids) : KeyFits env left right (id, cc) := by
  obtain ⟨a, ha, rfl⟩ := map_eq_some_iff.mp hlookup
  obtain ⟨-, child, hchild, hmem, henc⟩ := hs.side id a ha
  exact ⟨child, hchild, mem_ids_of_side disjoint hchild hmem hid, henc⟩

lemma Sides.protects (party : PartyCode) :
  Protects (st.lookup childCCL) (fun id => ∃ child, (child = left ∨ child = right) ∧
    Tainted Channels.checked env child party id) party := by
  intro id cc hlookup ⟨child, hchild, htaint⟩
  obtain ⟨a, ha, rfl⟩ := map_eq_some_iff.mp hlookup
  obtain ⟨-, child', hchild', hid, henc⟩ := hs.side id a ha
  exact henc party (same_side disjoint hchild hchild' htaint.mem_allIds hid ▸ htaint)

lemma keyFits_joinCondition {keys keys' : JoinKeys} {cond : ScalarFunction}
  (bound : ∀ x ∈ cond.toExpr.extractColumns, x.uniqueID ∈ left.ids ∨ x.uniqueID ∈ right.ids)
  (h : joinCondition env info schema l r (st.lookup childCCL) t keys cond = .ok keys')
  (hkeys : ∀ id cc, keys.joinKeyCCLs.lookup id = some cc → KeyFits env left right (id, cc)) :
  ∀ id cc, keys'.joinKeyCCLs.lookup id = some cc → KeyFits env left right (id, cc) := by
  obtain ⟨⟨lc, rc⟩, hcols, h⟩ := bind_eq_ok.mp h
  have hmem : lc ∈ cond.toExpr.extractColumns ∧ rc ∈ cond.toExpr.extractColumns := by
    rw [extractEQColumns] at hcols
    split at hcols
    · rename_i hargs
      cases hcols
      simp [ScalarFunction.toExpr, Expr.extractColumns, Expr.extractColumnsList, hargs]
    · cases hcols
  dsimp only at h
  split at h
  · cases h
  · cases h
  · rename_i leftCc rightCc hlc hrc
    obtain ⟨rightCc', hright, h⟩ := bind_eq_ok.mp h
    obtain ⟨leftCc', hleft, h⟩ := bind_eq_ok.mp h
    cases h
    have hr := (hs.keyFits disjoint hrc (bound rc hmem.2)).mono (fun _ => encrypt_checkKey hright)
    have hl := (hs.keyFits disjoint hlc (bound lc hmem.1)).mono (fun _ => encrypt_checkKey hleft)
    intro id cc hlookup
    obtain ⟨rfl, rfl⟩ | hlookup := of_lookup_insert hlookup
    · exact hr
    · obtain ⟨rfl, rfl⟩ | hlookup := of_lookup_insert hlookup
      · exact hl
      · exact hkeys id cc hlookup

lemma sound_joinColumn {keys : JoinKeys}
  (hkeys : ∀ id cc, keys.joinKeyCCLs.lookup id = some cc → KeyFits env left right (id, cc))
  {acc acc' : CclMap × InferState} {c : Column} (hext : Extends st acc.2)
  (hacc : Sound env (.join info schema left right) acc.1 acc.2)
  (h : joinColumn childCCL keys acc c = .ok acc') :
  Sound env (.join info schema left right) acc'.1 acc'.2 ∧ Extends st acc'.2 ∧
    acc'.2.tracer = acc.2.tracer := by
  rw [joinColumn] at h
  split at h
  · cases h
  · rename_i a ha
    obtain ⟨hlt, child, hchild, hid, henc⟩ := hs.side _ a ha
    split at h
    · rename_i cc hcc
      cases h
      obtain ⟨child', hchild', hid', hkey⟩ := hkeys _ cc hcc
      have hfits : Fits env (.join info schema left right) (c.uniqueID, cc) := by
        refine ⟨allIds_subset_join hchild hid, ?_⟩
        intro party htaint
        exact hkey party (htaint.of_join disjoint hchild' (child'.ids_subset_allIds hid'))
      exact ⟨hacc.bind hfits, hext.trans (extends_alloc _), rfl⟩
    · cases h
      have hlt' := lt_of_lt_of_le hlt hext.length_le
      have hwrite : Extends acc.2 (acc.2.write a (revealPayload
          (acc.2.tracer.findSourceParties c.uniqueID) keys.payloadVisible (acc.2.read a))) :=
        extends_write (fun _ => encrypt_revealPayload)
      refine ⟨(hacc.mono hwrite).insert (by simpa [InferState.write] using hlt') ?_,
        hext.trans hwrite, rfl⟩
      refine ⟨allIds_subset_join hchild hid, ?_⟩
      intro party htaint
      apply (hext.trans hwrite).keep a hlt party
      exact henc party (htaint.of_join disjoint hchild hid)

variable (fresh : ∀ c, info.resultColumn schema = some c → c.uniqueID ∉ left.allIds ∧
    c.uniqueID ∉ right.allIds)
include fresh

lemma Sides.sound_apply : Sound env (.apply info schema left right) childCCL st := by
  constructor
  · intro id a ha
    obtain ⟨hlt, child, hchild, hid, -⟩ := hs.side id a ha
    refine ⟨hlt, mem_append_right _ ?_⟩
    rcases hchild with rfl | rfl
    · exact mem_append_left _ hid
    · exact mem_append_right _ hid
  · intro id a party ha htaint
    obtain ⟨-, child, hchild, hid, henc⟩ := hs.side id a ha
    exact henc party (htaint.of_apply disjoint fresh hchild hid)

variable {sf : ScalarFunction}

lemma fits_applyResult (hsf : applyCondition info = .ok sf)
  (hcc : inferExpressionCCL (st.env childCCL) sf.toExpr = .ok cc)
  (hlast : info.resultColumn schema = some last) (hmem : last ∈ schema) :
  Fits env (.apply info schema left right) (last.uniqueID, cc) := by
  refine ⟨mem_append_left _ (mem_map_of_mem hmem), ?_⟩
  intro party ⟨s, src, hsrc, henc, hdep⟩
  generalize hid : last.uniqueID = id at hdep
  cases hdep with
  | apply hchild _ hdep =>
    have hbelow := hdep.mem_allIds
    rcases hchild with rfl | rfl
    · exact absurd (hid ▸ hbelow) (fresh last hlast).1
    · exact absurd (hid ▸ hbelow) (fresh last hlast).2
  | applyResult hchild _ hsf' hx hdep =>
    rw [hsf, Except.ok.injEq] at hsf'
    subst hsf'
    have henv : Protects (st.env childCCL).lookup _ party := hs.protects disjoint party
    exact encrypt_inferExpression henv sf.toExpr hcc hx ⟨_, hchild, s, src, hsrc, henc, hdep⟩

lemma sound_semiResultCCL (hsf : applyCondition info = .ok sf)
  (hcc : inferExpressionCCL (st.env childCCL) sf.toExpr = .ok cc)
  (hlast : info.resultColumn schema = schema.getLast?)
  (h : semiResultCCL schema childCCL sf cc st = .ok (m, st')) :
  Sound env (.apply info schema left right) m st' ∧ Extends st st' ∧
    st'.tracer.rootArgMap = st.tracer.rootArgMap := by
  have hsound := hs.sound_apply disjoint fresh
  rw [semiResultCCL] at h
  split at h
  · cases h
  · rename_i last hlast'
    obtain ⟨m₁, hm₁, h⟩ := bind_eq_ok.mp h
    have hbind := pure_eq_ok.mp h
    set st₁ := st.withTracer (st.tracer.setSourcePartiesFromExpr last.uniqueID sf.toExpr) with hst₁
    have hext : Extends st st₁ := .of_heap_eq rfl
    have hshared := hsound.of_lookup fun id a => lookup_of_shareColumns hm₁
    have hresult := (hshared.mono hext).bind (fits_applyResult disjoint hs fresh hsf hcc
      (hlast.trans hlast') (mem_of_getLast? hlast'))
    have hext' : Extends st (InferState.bind (m₁, st₁) (last.uniqueID, cc)).2 :=
      hext.trans (extends_alloc cc)
    have htracer : (InferState.bind (m₁, st₁) (last.uniqueID, cc)).2.tracer.rootArgMap =
      st.tracer.rootArgMap := rfl
    rw [hbind] at hresult hext' htracer
    exact ⟨hresult, hext', htracer⟩

end

/-- A key passed on to its root argument fits there: the key depends on the argument. -/
lemma fits_rootArg (hwf : WellIdentified (.join info schema left right))
  (hroots : ∀ k x, t.rootArgMap.lookup k = some x →
    k ∈ (LogicalPlan.join info schema left right).allIds →
      (k, x) ∈ (LogicalPlan.join info schema left right).rootPairs)
  (hkey : KeyFits env left right e)
  (hroot : t.getRootArg e.1 ∈ (LogicalPlan.join info schema left right).allIds) :
  Fits env (.join info schema left right) (t.getRootArg e.1, e.2) := by
  obtain ⟨child, hchild, hid, henc⟩ := hkey
  have hid' := child.ids_subset_allIds hid
  cases hwf with
  | join _ _ hl hr disjoint bound merged =>
    refine ⟨hroot, ?_⟩
    intro party htaint
    apply henc
    cases hlookup : t.rootArgMap.lookup e.1 with
    | none =>
      rw [ColumnTracer.getRootArg, hlookup] at htaint
      exact htaint.of_join disjoint hchild hid'
    | some x =>
      have hx : t.getRootArg e.1 = x := by rw [ColumnTracer.getRootArg, hlookup]; rfl
      rw [hx] at htaint
      -- the pair was recorded on the key's own side
      have lift : ∀ child', (child' = left ∨ child' = right) →
          e.1 ∈ child'.allIds ∧ x ∈ child'.allIds → (∀ s, e.1 ∈ child'.ids →
            Depends Channels.checked child' x s → Depends Channels.checked child' e.1 s) →
          Tainted Channels.checked env child party e.1 := by
        intro child' hchild' hmem hstep
        obtain rfl := same_side disjoint hchild' hchild hmem.1 hid'
        obtain ⟨s, src, hs, hsrc, hdep⟩ := htaint.of_join disjoint hchild hmem.2
        exact ⟨s, src, hs, hsrc, hstep s hid hdep⟩
      have hpair := hroots e.1 x hlookup (allIds_subset_join hchild hid')
      simp only [LogicalPlan.rootPairs, mem_append] at hpair
      rcases hpair with (hpair | hpair) | hpair | hpair
      · exact lift left (.inl rfl) (rootPairs_mem_allIds hl hpair)
          (fun s hk => Depends.of_rootPair hl hpair hk)
      · exact lift right (.inr rfl) (rootPairs_mem_allIds hr hpair)
          (fun s hk => Depends.of_rootPair hr hpair hk)
      · exact lift left (.inl rfl) (ownRootPairs_mem_allIds hl hpair)
          (fun s _ => Depends.of_ownRootPair hl hpair)
      · exact lift right (.inr rfl) (ownRootPairs_mem_allIds hr hpair)
          (fun s _ => Depends.of_ownRootPair hr hpair)

lemma sound_join (hwf : WellIdentified (.join info schema left right))
  (hs : Sides env left right childCCL st) (hlo : l.lp.ownRootPairs = left.ownRootPairs)
  (hro : r.lp.ownRootPairs = right.ownRootPairs)
  (hroots : ∀ k x, st.tracer.rootArgMap.lookup k = some x →
    k ∈ (LogicalPlan.join info schema left right).allIds → (k, x) ∈ left.rootPairs ∨
      (k, x) ∈ right.rootPairs)
  (h : joinCCL o env info schema l r childCCL st = .ok (m, st')) :
  Sound env (.join info schema left right) m st' ∧ Extends st st' ∧
    ∀ k x, st'.tracer.rootArgMap.lookup k = some x →
      (k, x) ∈ left.ownRootPairs ++ right.ownRootPairs ∨
        st.tracer.rootArgMap.lookup k = some x := by
  have hwf' := hwf
  cases hwf with
  | join _ _ hl hr disjoint bound merged =>
    obtain ⟨t₁, ht₁, h⟩ := bind_eq_ok.mp h
    obtain ⟨t₂, ht₂, h⟩ := bind_eq_ok.mp h
    obtain ⟨keys, hkeys, h⟩ := bind_eq_ok.mp h
    obtain ⟨acc, hacc, h⟩ := bind_eq_ok.mp h
    have htracer : ∀ k x, t₂.rootArgMap.lookup k = some x →
        (k, x) ∈ left.ownRootPairs ++ right.ownRootPairs ∨
          st.tracer.rootArgMap.lookup k = some x := by
      intro k x hk
      rcases findThenRecordRootArg_roots ht₂ hk with hk | hk
      · exact .inl (mem_append_right _ (hro ▸ hk))
      · rcases findThenRecordRootArg_roots ht₁ hk with hk | hk
        · exact .inl (mem_append_left _ (hlo ▸ hk))
        · exact .inr hk
    have hkeyFits : ∀ id cc, keys.joinKeyCCLs.lookup id = some cc →
      KeyFits env left right (id, cc) := by
      refine foldlM_invariant (P := fun keys : JoinKeys => ∀ id cc,
        keys.joinKeyCCLs.lookup id = some cc → KeyFits env left right (id, cc)) ?_ ?_ hkeys
      · intro cond hcond keys keys' hkeys hstep
        exact keyFits_joinCondition disjoint hs (bound cond hcond) hstep hkeys
      · intro id cc hlookup
        simp at hlookup
    -- the output columns, then the keys passed on to their root arguments
    let inv : CclMap × InferState → Prop :=
      fun acc => Sound env (.join info schema left right) acc.1 acc.2 ∧
      Extends st acc.2 ∧ acc.2.tracer = addKeySourceParties t₂ keys.joinKeyPairs
    have hcolumns : inv acc := by
      refine foldlM_invariant (P := inv) ?_ ?_ hacc
      · intro c hc acc acc' ⟨hsound, hext, htr⟩ hstep
        obtain ⟨hsound', hext', htr'⟩ := sound_joinColumn disjoint hs hkeyFits hext hsound hstep
        exact ⟨hsound', hext', htr'.trans htr⟩
      · exact ⟨.empty _ _ _, .of_heap_eq rfl, rfl⟩
    have hpassed : ∀ order : List (ℕ × CCL), (∀ e ∈ order, KeyFits env left right e) →
        inv (order.foldl (passToRootArg (addKeySourceParties t₂ keys.joinKeyPairs)) acc) := by
      intro order horder
      refine foldlRecOn (motive := inv) order _ hcolumns ?_
      intro acc ⟨hsound, hext, htr⟩ e he
      rw [passToRootArg]
      split
      · rename_i hmem
        obtain ⟨a, ha⟩ := isSome_iff_exists.mp (lookup_isSome.mpr hmem)
        refine ⟨hsound.bind ?_, hext.trans (extends_alloc _), htr⟩
        refine fits_rootArg hwf' ?_ (horder e he) (hsound.valid _ a ha).2
        intro k x hk hid
        rw [addKeySourceParties_rootArgMap] at hk
        simp only [LogicalPlan.rootPairs, mem_append]
        rcases htracer k x hk with hown | hold
        · exact .inr (mem_append.mp hown)
        · exact .inl (hroots k x hold hid)
      · exact ⟨hsound, hext, htr⟩
    have horder : ∀ e ∈ o.range 0 st.loops
        (keys.joinKeyCCLs.entries.map (fun e => (e.1, e.2))), KeyFits env left right e := by
      intro e he
      rw [o.mem_range] at he
      obtain ⟨e', he', rfl⟩ := mem_map.mp he
      exact hkeyFits _ _ (mem_lookup_iff.mpr he')
    obtain ⟨hsound, hext, htr⟩ := hpassed _ horder
    cases h
    refine ⟨hsound.mono (.of_heap_eq rfl), hext.trans (.of_heap_eq rfl), ?_⟩
    intro k x hk
    dsimp only at hk
    rw [htr, addKeySourceParties_rootArgMap] at hk
    exact htracer k x hk

lemma sound_applyCCL (hwf : WellIdentified (.apply info schema left right))
  (hs : Sides env left right childCCL st) (h : applyCCL info schema childCCL st = .ok (m, st')) :
  Sound env (.apply info schema left right) m st' ∧ Extends st st' ∧
    st'.tracer.rootArgMap = st.tracer.rootArgMap := by
  cases hwf with
  | apply _ _ _ _ disjoint merged fresh =>
    have hsound := hs.sound_apply disjoint fresh
    have hfiltered : ∀ cc, (do
        let values ← restrictColumns (st.lookup childCCL) cc schema
        return st.bindAll values) = Except.ok (m, st') →
        Sound env (.apply info schema left right) m st' ∧ Extends st st' ∧
          st'.tracer.rootArgMap = st.tracer.rootArgMap := by
      intro cc h
      obtain ⟨values, hvalues, h⟩ := bind_eq_ok.mp h
      have hbind := sound_bindAll st (fun e he => fits_restrictColumns
        (fun c hc => mem_append_left _ (mem_map_of_mem hc))
        (fun party => hsound.protects party) hvalues he)
      have htracer := bindAll_tracer st values
      rw [pure_eq_ok.mp h] at hbind htracer
      exact ⟨hbind.1, hbind.2, by rw [htracer]⟩
    rw [applyCCL] at h
    split at h
    · cases h
      exact ⟨hsound, .refl st, rfl⟩
    · obtain ⟨sf, hsf, h⟩ := bind_eq_ok.mp h
      obtain ⟨cc, hcc, h⟩ := bind_eq_ok.mp h
      split at h
      iterate 2
        refine sound_semiResultCCL disjoint hs fresh hsf hcc ?_ h
        rw [JoinInfo.resultColumn, ‹info.joinType = _›]
      iterate 2 exact hfiltered cc h
      · cases h

variable {o : RangeOrder} {r : LNode × InferState}

/-- What a successful inference of a plan leaves behind. -/
structure Inferred (env : BuilderEnv) (p : LogicalPlan) (st : InferState) (r : LNode × InferState) :
    Prop where
  schema : r.1.lp.schema = p.schema
  ownRoots : r.1.lp.ownRootPairs = p.ownRootPairs
  extended : Extends st r.2
  roots : ∀ k x, r.2.tracer.rootArgMap.lookup k = some x →
    (k, x) ∈ p.rootPairs ∨ st.tracer.rootArgMap.lookup k = some x
  sound : Sound env p r.1.ccl r.2

/-- Before a plan is inferred, no root argument is known for its columns. -/
def NoRoots (st : InferState) (p : LogicalPlan) : Prop :=
  ∀ k ∈ p.allIds, st.tracer.rootArgMap.lookup k = none

lemma NoRoots.of_subset (h : NoRoots st p) (hids : child.allIds ⊆ p.allIds) : NoRoots st child :=
  fun k hk => h k (hids hk)

def Infers (o : RangeOrder) (env : BuilderEnv) (p : LogicalPlan) : Prop :=
  ∀ st r, WellIdentified p → NoRoots st p → buildCCL o env p st = .ok r → Inferred env p st r

lemma Inferred.of_values {st st₁ : InferState} {values : List (ℕ × CCL)}
  (hc : Inferred env child st (c, st₁)) (hpairs : p.rootPairs = child.rootPairs)
  (hfits : ∀ e ∈ values, Fits env p e) (hschema : r.1.lp.schema = p.schema)
  (hown : r.1.lp.ownRootPairs = p.ownRootPairs) (hccl : r.1.ccl = (st₁.bindAll values).1)
  (hheap : r.2.heap = (st₁.bindAll values).2.heap)
  (htracer : r.2.tracer.rootArgMap = st₁.tracer.rootArgMap) : Inferred env p st r := by
  obtain ⟨hsound, hext⟩ := sound_bindAll st₁ hfits
  refine ⟨hschema, hown, (hc.extended.trans hext).trans (.of_heap_eq hheap), ?_, ?_⟩
  · intro k x hk
    rw [htracer] at hk
    exact hpairs ▸ hc.roots k x hk
  · rw [hccl]
    exact hsound.mono (.of_heap_eq hheap)

lemma Inferred.of_pass {st st₁ : InferState}
  (hc : Inferred env child st (c, st₁)) (hm : extractChildCCL [c] = .ok m)
  (hids : child.allIds ⊆ p.allIds) (hpairs : p.rootPairs = child.rootPairs)
  (hdep : ∀ id s, Depends Channels.checked p id s → Depends Channels.checked child id s)
  (hschema : r.1.lp.schema = p.schema) (hown : r.1.lp.ownRootPairs = p.ownRootPairs)
  (hccl : r.1.ccl = m) (hst : r.2 = st₁) : Inferred env p st r := by
  subst hst hccl
  refine ⟨hschema, hown, hc.extended, ?_, (hc.sound.extract hm).pass hids hdep⟩
  intro k x hk
  exact hpairs ▸ hc.roots k x hk

lemma inferred_pass (f : LogicalPlan → LogicalPlan)
  (ih : ∀ r, buildCCL o env child st = .ok r → Inferred env child st r)
  (hids : (f child).allIds = child.allIds) (hpairs : (f child).rootPairs = child.rootPairs)
  (hdep : ∀ id s, Depends Channels.checked (f child) id s → Depends Channels.checked child id s)
  (hschema : ∀ q, (f q).schema = q.schema) (hown : ∀ q, (f q).ownRootPairs = [])
  (h : (do
    let (c, st) ← buildCCL o env child st
    let m ← extractChildCCL [c]
    return (LNode.inferred (f c.lp) m (childParties [c]) [c], st)) = Except.ok r) :
  Inferred env (f child) st r := by
  simp only [bind_eq_ok, pure_eq_ok, Prod.exists] at h
  obtain ⟨c, st₁, hb, m, hm, rfl⟩ := h
  have hc := ih _ hb
  refine .of_pass hc hm (hids ▸ List.Subset.refl _) hpairs hdep ?_ ?_ rfl rfl
  · exact (hschema c.lp).trans (hc.schema.trans (hschema child).symm)
  · exact (hown c.lp).trans (hown child).symm

lemma foldl_rootArgMap {α : Type} {f : ColumnTracer → α → ColumnTracer} (l : List α)
  (t : ColumnTracer) (hf : ∀ t a, (f t a).rootArgMap = t.rootArgMap) :
  (l.foldl f t).rootArgMap = t.rootArgMap :=
  foldlRecOn (motive := fun t' : ColumnTracer => t'.rootArgMap = t.rootArgMap) l f rfl
    (fun t' h a _ => (hf t' a).trans h)

lemma inferred_dataSource (hwf : WellIdentified (.dataSource ds))
  (h : buildCCL o env (.dataSource ds) st = .ok r) : Inferred env (.dataSource ds) st r := by
  rw [buildCCL] at h
  split at h
  · cases h
  · rename_i party _
    obtain ⟨values, hvalues, h⟩ := bind_eq_ok.mp h
    cases h
    obtain ⟨hsound, hext⟩ := sound_bindAll st (fun e he => fits_dataSource hwf hvalues he)
    refine ⟨rfl, rfl, hext.trans (.of_heap_eq rfl), ?_, hsound.mono (.of_heap_eq rfl)⟩
    intro k x hk
    have hroots :=
      foldl_rootArgMap (f := fun t (c : Column) => t.addSourceParties c.uniqueID [party])
      ds.schema (st.bindAll values).2.tracer (fun _ _ => rfl)
    right
    rw [← bindAll_tracer st values, ← hroots]
    exact hk

lemma infers_projection (ih : Infers o env child) :
  Infers o env (.projection exprs schema child) := by
  intro st r hwf hroots h
  simp only [buildCCL, bind_eq_ok, pure_eq_ok, Prod.exists] at h
  obtain ⟨c, st₁, hc, m, hm, values, hvalues, rfl⟩ := h
  have hc := ih st _ (by cases hwf; assumption) (hroots.of_subset (subset_append_right _ _)) hc
  refine .of_values hc rfl (fun e he => fits_projection hwf (hc.sound.extract hm) hvalues he)
    rfl rfl rfl rfl ?_
  refine (foldl_rootArgMap _ _ (fun t q => ?_)).trans ?_
  · rfl
  · exact congrArg ColumnTracer.rootArgMap (bindAll_tracer st₁ values)

lemma infers_selection {conds : List Expr} {aff : Bool} (ih : Infers o env child) :
  Infers o env (.selection conds aff schema child) := by
  intro st r hwf hroots h
  have hdep : ∀ id s, Depends Channels.checked (.selection conds aff schema child) id s →
      Depends Channels.checked child id s := by
    intro id s hdep
    cases hdep with
    | selection _ hdep => exact hdep
  simp only [buildCCL, bind_eq_ok] at h
  obtain ⟨⟨c, st₁⟩, hc, m, hm, ⟨conds', rewritten⟩, -, h⟩ := h
  have hc := ih st _ (by cases hwf; assumption) (hroots.of_subset (subset_append_right _ _)) hc
  dsimp only at h
  split at h
  · cases h
    exact .of_pass hc hm (subset_append_right _ _) rfl hdep rfl rfl rfl rfl
  · obtain ⟨cond, -, h⟩ := bind_eq_ok.mp h
    obtain ⟨values, hvalues, h⟩ := bind_eq_ok.mp h
    cases h
    have hsound : Sound env (.selection conds aff schema child) m st₁ :=
      (hc.sound.extract hm).pass (subset_append_right _ _) hdep
    refine .of_values hc rfl (fun e he => fits_restrictColumns
      (fun c hc => mem_append_left _ (mem_map_of_mem hc))
      (fun party => hsound.protects party) hvalues he) rfl rfl rfl rfl ?_
    exact congrArg ColumnTracer.rootArgMap (bindAll_tracer st₁ values)

lemma infers_aggregation {info : AggInfo} (ih : Infers o env child) :
  Infers o env (.aggregation info schema child) := by
  intro st r hwf hroots h
  simp only [buildCCL, bind_eq_ok, pure_eq_ok, Prod.exists] at h
  obtain ⟨c, st₁, hc, m, hm, values, hvalues, rfl⟩ := h
  have hc := ih st _ (by cases hwf; assumption) (hroots.of_subset (subset_append_right _ _)) hc
  refine .of_values hc rfl (fun e he => fits_aggregation hwf (hc.sound.extract hm) hvalues he)
    rfl rfl rfl rfl ?_
  exact congrArg ColumnTracer.rootArgMap (bindAll_tracer st₁ values)

lemma windowCCL_cases {info : WindowInfo} {w : CclMap × InferState}
  (h : windowCCL info schema m st = .ok w) : ∃ last cc, schema.getLast? = some last ∧
    orderCCL (st.lookup m) info.orderBy = .ok cc ∧
    w = let values := m.entries.map (fun e => (e.1, st.read e.2)) ++
          [(last.uniqueID, setPlainWhen Rank cc)]
        ((st.bindAll values).1, (st.bindAll values).2.withTracer
          ((st.bindAll values).2.tracer.addSourceParties last.uniqueID
            (CCL.extractPartyCodes [setPlainWhen Rank cc]))) := by
  rw [windowCCL] at h
  split at h
  · cases h
  · cases hpart : info.partitionBy.isEmpty with
    | true => simp [hpart, throw, throwThe, MonadExceptOf.throw, bind, Except.bind] at h
    | false =>
      simp only [hpart, Bool.false_eq_true, if_false] at h
      split at h
      · cases h
      · rename_i last hlast
        obtain ⟨cc, hcc, h⟩ := bind_eq_ok.mp h
        exact ⟨last, cc, hlast, hcc, (pure_eq_ok.mp h).symm⟩

lemma infers_window {info : WindowInfo} (ih : Infers o env child) :
  Infers o env (.window info schema child) := by
  intro st r hwf hroots h
  rw [buildCCL] at h
  split at h
  · split at h
    · cases h
    · simp only [bind_eq_ok, pure_eq_ok] at h
      obtain ⟨⟨c, st₁⟩, hc, m, hm, w, hwindow, rfl⟩ := h
      have hc := ih st _ (by cases hwf; assumption) (hroots.of_subset (subset_append_right _ _)) hc
      obtain ⟨last, cc, hlast, hcc, rfl⟩ := windowCCL_cases hwindow
      refine .of_values hc rfl (fun e he => fits_window hwf (hc.sound.extract hm) hlast hcc he)
        rfl rfl rfl rfl ?_
      dsimp only [InferState.withTracer]
      rw [addSourceParties_rootArgMap, bindAll_tracer]
  · cases h

/-- The root arguments recorded for one plan do not concern a plan that shares no column. -/
lemma NoRoots.of_inferred {other : LogicalPlan} (hp : Inferred env p st r)
  (h : NoRoots st other) (hdisjoint : ∀ e ∈ p.rootPairs, e.1 ∉ other.allIds) :
    NoRoots r.2 other := by
  intro k hk
  cases hlookup : r.2.tracer.rootArgMap.lookup k with
  | none => rfl
  | some x =>
    rcases hp.roots k x hlookup with hpair | hold
    · exact absurd hk (hdisjoint (k, x) hpair)
    · rw [h k hk] at hold
      cases hold

lemma infers_union {children : List LogicalPlan} (ih : ∀ c ∈ children, Infers o env c) :
  Infers o env (.unionAll schema children) := by
  intro st r hwf hroots h
  have hwf' := hwf
  cases hwf with
  | unionAll _ hcs nodup fresh disjoint =>
    -- the branches are inferred one after the other, in one state
    have hbranches : ∀ (ps : List LogicalPlan) (st : InferState)
        (rs : List LNode × InferState), (∀ c ∈ ps, c ∈ children) →
        ps.Pairwise (fun c d => ∀ e ∈ c.rootPairs, e.1 ∉ d.allIds) →
        (∀ c ∈ ps, NoRoots st c) → buildCCLs o env ps st = .ok rs →
        Forall₂ (fun p n => n.lp.schema = p.schema ∧ Sound env p n.ccl rs.2) ps rs.1 ∧
          Extends st rs.2 ∧ ∀ k x, rs.2.tracer.rootArgMap.lookup k = some x →
            (k, x) ∈ LogicalPlan.rootPairsList ps ∨ st.tracer.rootArgMap.lookup k = some x := by
      intro ps
      induction ps with
      | nil =>
        intro st rs _ _ _ h
        cases h
        exact ⟨.nil, .refl st, fun k x hk => .inr hk⟩
      | cons p ps ihps =>
        intro st rs hmem hpair hnone h
        simp only [buildCCLs, bind_eq_ok, pure_eq_ok, Prod.exists] at h
        obtain ⟨c, st₁, hc, cs, st₂, hcs', rfl⟩ := h
        obtain ⟨hhead, htail⟩ := pairwise_cons.mp hpair
        have hc := ih p (hmem p mem_cons_self) st _ (hcs p (hmem p mem_cons_self))
          (hnone p mem_cons_self) hc
        have hnone' : ∀ d ∈ ps, NoRoots st₁ d := by
          intro d hd
          exact NoRoots.of_inferred hc (hnone d (mem_cons_of_mem _ hd)) (hhead d hd)
        obtain ⟨hrest, hext, htracer⟩ := ihps st₁ (cs, st₂)
          (fun d hd => hmem d (mem_cons_of_mem _ hd)) htail hnone' hcs'
        refine ⟨.cons ⟨hc.schema, hc.sound.mono hext⟩ hrest, hc.extended.trans hext, ?_⟩
        intro k x hk
        rw [LogicalPlan.rootPairsList, mem_append]
        rcases htracer k x hk with hpairs | hold
        · exact .inl (.inr hpairs)
        · exact (hc.roots k x hold).imp_left .inl
    simp only [buildCCL, bind_eq_ok, pure_eq_ok, Prod.exists] at h
    obtain ⟨cs, st₁, hcs', values, hvalues, rfl⟩ := h
    have hnone : ∀ c ∈ children, NoRoots st c := by
      intro c hc
      refine hroots.of_subset (fun k hk => mem_append_right _ ?_)
      exact LogicalPlan.mem_allIdsList.mpr ⟨c, hc, hk⟩
    obtain ⟨hnodes, hext, htracer⟩ :=
      hbranches children st (cs, st₁) (fun _ h => h) disjoint hnone hcs'
    obtain ⟨hsound, hext'⟩ := sound_bindAll st₁ (fun e he => fits_union hwf' hnodes hvalues he)
    refine ⟨rfl, rfl, hext.trans hext', ?_, hsound⟩
    intro k x hk
    have hold := congrArg ColumnTracer.rootArgMap (bindAll_tracer st₁ values)
    exact htracer k x (hold ▸ hk)

lemma inferred_sides (disjoint : ∀ id ∈ left.allIds, id ∉ right.allIds)
  (hl : WellIdentified left) {l rn : LNode} {st st₁ st₂ : InferState} {childCCL : CclMap}
  (ihl : NoRoots st left → Inferred env left st (l, st₁))
  (ihr : NoRoots st₁ right → Inferred env right st₁ (rn, st₂))
  (hroots : ∀ k ∈ left.allIds ++ right.allIds, st.tracer.rootArgMap.lookup k = none)
  (hchild : extractChildCCL [l, rn] = .ok childCCL) :
  Inferred env left st (l, st₁) ∧ Inferred env right st₁ (rn, st₂) ∧
    Sides env left right childCCL st₂ := by
  have hl' := ihl (fun k hk => hroots k (mem_append_left _ hk))
  have hnone : NoRoots st₁ right := by
    refine NoRoots.of_inferred hl' (fun k hk => hroots k (mem_append_right _ hk)) ?_
    intro e he
    exact disjoint e.1 (rootPairs_mem_allIds hl he).1
  have hr' := ihr hnone
  exact ⟨hl', hr', .extract (hl'.sound.mono hr'.extended) hr'.sound hchild⟩

lemma infers_join (ihl : Infers o env left) (ihr : Infers o env right) :
  Infers o env (.join info schema left right) := by
  intro st r hwf hroots h
  have hwf' := hwf
  cases hwf with
  | join _ _ hl hr disjoint bound merged =>
    simp only [buildCCL, bind_eq_ok, pure_eq_ok, Prod.exists] at h
    obtain ⟨l, st₁, hbl, rn, st₂, hbr, childCCL, hchild, m, st₃, hjoin, rfl⟩ := h
    obtain ⟨hl', hr', hs⟩ := inferred_sides disjoint hl (fun hn => ihl st _ hl hn hbl)
      (fun hn => ihr st₁ _ hr hn hbr) (fun k hk => hroots k (mem_append_right _ hk)) hchild
    have hold : ∀ k x, st₂.tracer.rootArgMap.lookup k = some x →
        ((k, x) ∈ left.rootPairs ∨ (k, x) ∈ right.rootPairs) ∨
          st.tracer.rootArgMap.lookup k = some x := by
      intro k x hk
      rcases hr'.roots k x hk with hpair | hk
      · exact .inl (.inr hpair)
      · exact (hl'.roots k x hk).imp_left .inl
    obtain ⟨hsound, hext, htracer⟩ := sound_join hwf' hs hl'.ownRoots hr'.ownRoots
      (fun k x hk hid => (hold k x hk).resolve_right (by simp [hroots k hid])) hjoin
    refine ⟨rfl, rfl, (hl'.extended.trans hr'.extended).trans hext, ?_, hsound⟩
    intro k x hk
    simp only [LogicalPlan.rootPairs, mem_append]
    rcases htracer k x hk with hown | hk
    · exact .inl (.inr (mem_append.mp hown))
    · exact (hold k x hk).imp_left .inl

lemma infers_apply (ihl : Infers o env left) (ihr : Infers o env right) :
  Infers o env (.apply info schema left right) := by
  intro st r hwf hroots h
  have hwf' := hwf
  cases hwf with
  | apply _ _ hl hr disjoint merged fresh =>
    simp only [buildCCL, bind_eq_ok, pure_eq_ok, Prod.exists] at h
    obtain ⟨l, st₁, hbl, rn, st₂, hbr, childCCL, hchild, m, st₃, happly, rfl⟩ := h
    obtain ⟨hl', hr', hs⟩ := inferred_sides disjoint hl (fun hn => ihl st _ hl hn hbl)
      (fun hn => ihr st₁ _ hr hn hbr) (fun k hk => hroots k (mem_append_right _ hk)) hchild
    obtain ⟨hsound, hext, htracer⟩ := sound_applyCCL hwf' hs happly
    refine ⟨rfl, rfl, (hl'.extended.trans hr'.extended).trans hext, ?_, hsound⟩
    intro k x hk
    rw [LogicalPlan.rootPairs, mem_append]
    dsimp only at hk
    rw [htracer] at hk
    rcases hr'.roots k x hk with hpair | hk
    · exact .inl (.inr hpair)
    · exact (hl'.roots k x hk).imp_left .inl

lemma infers_buildCCL (o : RangeOrder) (env : BuilderEnv) (p : LogicalPlan) : Infers o env p := by
  induction p using LogicalPlan.induct with
  | dataSource ds => exact fun st r hwf _ h => inferred_dataSource hwf h
  | selection _ _ _ _ ih => exact infers_selection ih
  | projection _ _ _ ih => exact infers_projection ih
  | join _ _ _ _ ihl ihr => exact infers_join ihl ihr
  | apply _ _ _ _ ihl ihr => exact infers_apply ihl ihr
  | aggregation _ _ _ ih => exact infers_aggregation ih
  | unionAll _ _ ih => exact infers_union ih
  | window _ _ _ ih => exact infers_window ih
  | limit _ _ _ ih | sort _ _ ih | maxOneRow _ ih =>
    intro st r hwf hroots h
    rw [buildCCL] at h
    refine inferred_pass _ (fun r => ih st r (by cases hwf; assumption) hroots) rfl rfl ?_
      (fun _ => rfl) (fun _ => rfl) h
    intro id s hdep
    cases hdep
    assumption

/-- A table of alice; bob may not see `k`, may rank by `v` and group by `w`. -/
def rankEnv : BuilderEnv where
  partyByTable _ := some "alice"
  originCCL := (((∅ : AList (fun _ : String => CCL)).insert "t.k"
      ((CCL.newCCL.setLevelForParty "alice" Plain).setLevelForParty "bob" Encrypt)).insert "t.v"
      ((CCL.newCCL.setLevelForParty "alice" Plain).setLevelForParty "bob" Rank)).insert "t.w"
      ((CCL.newCCL.setLevelForParty "alice" Plain).setLevelForParty "bob" GroupBy)
  groupByThreshold := 1
  psiType := .AUTO

def kCol : Column := {uniqueID := 1, origName := "t.k"}
def vCol : Column := {uniqueID := 2, origName := "t.v"}
def wCol : Column := {uniqueID := 3, origName := "t.w"}
def table : DataSource := ⟨"t", [kCol, vCol, wCol]⟩

/-- `rank() over (partition by .. order by ..)` over the table, as column 4. -/
def rankPlan (partitionBy orderBy : Column) : LogicalPlan :=
  .window ⟨[.Rank], [{col := partitionBy}], [{col := orderBy}]⟩
    [kCol, vCol, wCol, {uniqueID := 4}] (.dataSource table)

/-- `select distinct w, k`. -/
def distinctPlan : LogicalPlan :=
  .aggregation ⟨[{name := .FirstRow, args := [.column wCol]},
    {name := .FirstRow, args := [.column kCol]}], [.column wCol, .column kCol], true⟩
    [wCol, kCol] (.dataSource table)

/-- A rank whose result column was pruned: the last column left is `k`. -/
def prunedPlan : LogicalPlan :=
  .window ⟨[.Rank], [{col := wCol}], [{col := vCol}]⟩ [kCol] (.dataSource table)

lemma wellIdentified_table : WellIdentified (.dataSource table) :=
  .dataSource table (by decide)

lemma wellIdentified_rankPlan (a b : Column) : WellIdentified (rankPlan a b) :=
  .window _ _ wellIdentified_table (by decide) (by
    intro c hc
    cases hc
    decide)

lemma wellIdentified_distinctPlan : WellIdentified distinctPlan := by
  refine .aggregation _ _ wellIdentified_table rfl ?_ ?_
  · intro q hq _
    simp only [zip_cons_cons, zip_nil_right, mem_cons, not_mem_nil, or_false] at hq
    rcases hq with rfl | rfl
    · exact ⟨by decide, rfl, wCol, rfl, rfl⟩
    · exact ⟨by decide, rfl, kCol, rfl, rfl⟩
  · intro q hq q' hq' hid
    simp only [zip_cons_cons, zip_nil_right, mem_cons, not_mem_nil, or_false] at hq hq'
    rcases hq with rfl | rfl <;> rcases hq' with rfl | rfl
    · rfl
    · cases hid
    · cases hid
    · rfl

def inferredLevel (o : RangeOrder) (env : BuilderEnv) (plan : LogicalPlan) (id : ℕ)
    (party : PartyCode) : Option CCLLevel :=
  match buildCCL o env plan .start with
  | .error _ => none
  | .ok r => (outputCCL r id).map (·.levelFor party)

lemma exists_of_inferredLevel {env : BuilderEnv} {plan : LogicalPlan}
  {party : PartyCode} (h : inferredLevel o env plan id party = some level) :
  ∃ r cc, buildCCL o env plan .start = .ok r ∧ outputCCL r id = some cc ∧
    cc.levelFor party = level := by
  rw [inferredLevel] at h
  split at h
  · cases h
  · rename_i r hr
    obtain ⟨cc, hcc, hlevel⟩ := map_eq_some_iff.mp h
    exact ⟨r, cc, hr, hcc, hlevel⟩

end Scql.ControlInference
