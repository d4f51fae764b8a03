import Scql.JobExchange

/-! # When an engine is started

A broker that starts its engine has compared its checksums with those the owners of the tables
reported, provided that no sync of a broker that is not the issuer ended with an error and that
a second preparation finds the same data parties as the first. -/
namespace Scql.Broker

open MetaStorage MapRange QueryRunner Fallible List Function AList
open Option (bind_eq_some_iff map_eq_some_iff some)

variable {deps : Deps} {self : PartyCode} {s s' : Session}

/-- The broker's checksum of a party is the one that party reported. -/
def Session.Agrees (s : Session) (p : PartyCode) : Prop :=
  ∃ c, s.checksums.localChecksums.lookup p = some c ∧ s.checksums.remoteChecksums.lookup p = some c

/-- The data parties are the owners of the tables at hand, and their checksums are up to date. -/
structure Session.Fresh (deps : Deps) (s : Session) : Prop where
  owners : ∀ p, p ∈ s.dataParties ↔ ∃ t ∈ s.runner.tables, t.table.owner = p
  sums : ∀ p ∈ s.dataParties, ∃ c, s.runner.partyChecksum deps p = .ok c ∧
    s.checksums.localChecksums.lookup p = some c

variable {sums : List (PartyCode × Checksum)}

lemma lookup_foldlM_saveLocal {cs cs' : ChecksumStorage}
  (h : sums.foldlM (fun (cs : ChecksumStorage) pc => cs.saveLocal pc.1 pc.2) cs = .ok cs')
  {f : PartyCode → Except String Checksum} (hf : ∀ pc ∈ sums, f pc.1 = .ok pc.2) :
  cs'.remoteChecksums = cs.remoteChecksums ∧
    ∀ p, (p ∈ sums.map (·.1) ∨ ∃ c, f p = .ok c ∧ cs.localChecksums.lookup p = some c) →
      ∃ c, f p = .ok c ∧ cs'.localChecksums.lookup p = some c := by
  induction sums generalizing cs with
  | nil =>
    cases h
    exact ⟨rfl, fun p hp => hp.resolve_left (by simp)⟩
  | cons pc sums ih =>
    rw [foldlM_cons] at h
    obtain ⟨cs₁, hsave, h⟩ := bind_eq_ok.mp h
    obtain rfl := ChecksumStorage.saveLocal_ok hsave
    obtain ⟨hremote, hlocal⟩ := ih h (fun q hq => hf q (mem_cons_of_mem _ hq))
    refine ⟨hremote, fun p hp => hlocal p ?_⟩
    -- the entry just written is kept or written again with the same value
    by_cases hpc : p = pc.1
    · subst hpc
      exact .inr ⟨pc.2, hf pc mem_cons_self, lookup_insert _⟩
    · rcases hp with hp | ⟨c, hc, hlookup⟩
      · rcases mem_cons.mp hp with rfl | hp
        · exact absurd rfl hpc
        · exact .inl hp
      · exact .inr ⟨c, hc, by rw [lookup_insert_ne hpc, hlookup]⟩

lemma createChecksum_ok {r : QueryRunner} {dataParties : List PartyCode}
  (h : r.createChecksum deps dataParties = .ok sums) :
  (∀ pc ∈ sums, r.partyChecksum deps pc.1 = .ok pc.2) ∧ ∀ p ∈ dataParties, p ∈ sums.map (·.1) := by
  constructor
  · intro pc hpc
    obtain ⟨p, -, hp⟩ := mem_of_mapM_ok h hpc
    obtain ⟨c, hc, hp⟩ := bind_eq_ok.mp hp
    cases hp
    exact hc
  · intro p hp
    obtain ⟨pc, hpc, heq⟩ := mapM_ok_mem h hp
    obtain ⟨c, -, heq⟩ := bind_eq_ok.mp heq
    cases heq
    exact mem_map.mpr ⟨_, hpc, rfl⟩

lemma saveLocalChecksums_ok (h : saveLocalChecksums deps s = .ok s') :
  (∃ cs, s' = {s with checksums := cs} ∧ cs.remoteChecksums = s.checksums.remoteChecksums) ∧
    ∀ p ∈ s.dataParties, ∃ c, s.runner.partyChecksum deps p = .ok c ∧
      s'.checksums.localChecksums.lookup p = some c := by
  obtain ⟨sums, hsums, h⟩ := bind_eq_ok.mp h
  obtain ⟨cs, hcs, h⟩ := bind_eq_ok.mp h
  cases h
  obtain ⟨hsum, hmem⟩ := createChecksum_ok hsums
  obtain ⟨hremote, hlocal⟩ := lookup_foldlM_saveLocal hcs hsum
  exact ⟨⟨cs, rfl, hremote⟩, fun p hp => hlocal p (.inl (hmem p hp))⟩

lemma fresh_saveLocalChecksums (h : saveLocalChecksums deps s = .ok s')
  (howners : ∀ p, p ∈ s.dataParties ↔ ∃ t ∈ s.runner.tables, t.table.owner = p) :
    s'.Fresh deps := by
  obtain ⟨⟨cs, rfl, -⟩, hsums⟩ := saveLocalChecksums_ok h
  exact ⟨howners, hsums⟩

variable {info : SessionInfo}

lemma sessionInfo_ok (h : sessionInfo deps self s = .ok info)
  (hself : self ∈ s.dataParties) : s.checksums.localChecksums.lookup self = some info.checksum := by
  rw [sessionInfo, if_pos hself] at h
  obtain ⟨c, hc, h⟩ := bind_eq_ok.mp h
  cases h
  rw [ChecksumStorage.getLocal] at hc
  split at hc
  · cases hc
  · rename_i hlookup
    cases hc
    exact hlookup

variable {p : PartyCode}

lemma agrees_of_checkChecksum (h : checkChecksum self s = .ok ())
  (hp : p ∈ s.dataParties) (hself : p ≠ self) : s.Agrees p := by
  have hmem : p ∈ s.dataParties.filter (· ≠ self) := by simp [hp, hself]
  obtain ⟨r, hr, hequal⟩ := bind_eq_ok.mp (forM_ok_mem h hmem)
  obtain ⟨c, d, hc, hd, rfl⟩ := ChecksumStorage.compareChecksumFor_ok hr
  split at hequal
  · cases hequal
  · rename_i hsame
    obtain rfl := Checksum.compareWith_eq_EQUAL.mp (not_not.mp hsame)
    exact ⟨c, hc, hd⟩

variable {job job' : Job}

/-- The checksum a party reported for the job: the session row for the broker itself. -/
def Job.reported (self : PartyCode) (job : Job) (p : PartyCode) : Option Checksum :=
  if p = self then some job.info.checksum else job.session.checksums.remoteChecksums.lookup p

/-- What the start of an engine asks for: the owner of each table that is compiled reported the
checksum this broker has of it, syncing ended without an error, and the data parties are the
owners of the compiled tables. -/
structure Job.Gated (deps : Deps) (broker : PartyCode) (job : Job) : Prop where
  sums : ∀ t ∈ job.session.runner.tables, ∃ c,
    job.session.runner.partyChecksum deps t.table.owner = .ok c ∧
      job.reported broker t.table.owner = some c
  synced : job.syncError = false
  owners : ∀ p, p ∈ job.session.dataParties ↔ ∃ t ∈ job.session.runner.tables, t.table.owner = p

/-- Every data party but the broker itself and those in `except` agrees. -/
def Session.AgreesBut (s : Session) (self : PartyCode) (except : List PartyCode) : Prop :=
  ∀ p ∈ s.dataParties, p ≠ self → p ∉ except → s.Agrees p

def Job.Inv (deps : Deps) (self : PartyCode) (job : Job) : Prop :=
  match job.phase with
  | .syncing pending triggered failed =>
    job.session.Fresh deps ∧ job.session.runner.prepareAgain = false ∧ job.syncError = false ∧
      (triggered = false → failed = false → job.session.AgreesBut self (pending.map (·.party)))
  | .executing => job.session.Fresh deps ∧ job.syncError = false ∧
      (job.session.runner.prepareAgain = false → job.session.AgreesBut self [])
  | .reprepared => job.session.Fresh deps ∧ job.syncError = false
  | .running => job.Gated deps self
  | .stopped => True

lemma exists_phase_of_task {target : PartyCode} {task : Task} (h : job.task target = some task) :
  ∃ pending t f, job.phase = .syncing pending t f ∧ target ∈ pending.map (·.party) := by
  rw [Job.task] at h
  split at h
  · rename_i pending t f hphase
    refine ⟨pending, t, f, hphase, mem_map.mpr ⟨task, mem_of_find?_eq_some h, ?_⟩⟩
    simpa using find?_some h
  · cases h

variable {pending : List Task} {t f : Bool} {target : PartyCode}

/-- A party that was heard from agrees, unless rows are asked from it or the call failed. -/
lemma inv_taskDone {triggered failed : Bool} (hphase : job.phase = .syncing pending t f)
  (hinv : job.Inv deps self) (htarget : triggered = false → failed = false →
    target ∈ job.session.dataParties →
    target ≠ self → job.session.Agrees target) :
  (job.taskDone target triggered failed).Inv deps self := by
  rw [Job.Inv, hphase] at hinv
  obtain ⟨hfresh, hagain, herr, hagrees⟩ := hinv
  rw [Job.taskDone, hphase, Job.Inv]
  refine ⟨hfresh, hagain, herr, fun htrig hfail p hp hself hpend => ?_⟩
  rw [Bool.or_eq_false_iff] at htrig hfail
  by_cases hpt : p = target
  · subst hpt
    exact htarget htrig.2 hfail.2 hp hself
  · refine hagrees htrig.1 hfail.1 p hp hself fun hmem => hpend ?_
    obtain ⟨task, htask, rfl⟩ := mem_map.mp hmem
    exact mem_map.mpr ⟨task, by simp [htask, hpt], rfl⟩

lemma inv_retry (hphase : job.phase = .syncing pending t f) (hinv : job.Inv deps self) :
  (job.retry target).Inv deps self := by
  rw [Job.Inv, hphase] at hinv
  obtain ⟨hfresh, hagain, herr, hagrees⟩ := hinv
  rw [Job.retry, hphase, Job.Inv]
  refine ⟨hfresh, hagain, herr, fun htrig hfail p hp hself hpend => ?_⟩
  refine hagrees htrig hfail p hp hself fun hmem => hpend ?_
  have hparties : (pending.map (fun task => if task.party = target then
      {task with attempts := task.attempts-1} else task)).map (·.party) =
        pending.map (·.party) := by
    rw [map_map]
    refine map_congr_left fun task _ => ?_
    dsimp only [comp_apply]
    split <;> rfl
  rw [hparties]
  exact hmem

/-- Recording what a party reported touches only that party, which is still waited for. -/
lemma inv_record {sum : Option Checksum} {endpoint : String}
  (hphase : job.phase = .syncing pending t f) (hmem : target ∈ pending.map (·.party))
  (hinv : job.Inv deps self) (h : job.record target sum endpoint = .ok job') :
  job'.Inv deps self ∧ job'.phase = job.phase ∧ job'.session.dataParties = job.session.dataParties ∧
    job'.session.checksums.localChecksums = job.session.checksums.localChecksums ∧
    job'.session.checksums.remoteChecksums.lookup target = sum := by
  obtain ⟨cs, hsave, h⟩ := bind_eq_ok.mp h
  cases h
  obtain ⟨c, rfl, rfl⟩ := ChecksumStorage.saveRemote_ok hsave
  refine ⟨?_, rfl, rfl, rfl, lookup_insert _⟩
  rw [Job.Inv, hphase] at hinv
  obtain ⟨hfresh, hagain, herr, hagrees⟩ := hinv
  rw [Job.Inv]
  dsimp only
  rw [hphase]
  refine ⟨⟨hfresh.owners, hfresh.sums⟩, hagain, herr, fun htrig hfail p hp hself hpend => ?_⟩
  obtain ⟨d, hlocal, hremote⟩ := hagrees htrig hfail p hp hself hpend
  have hne : p ≠ target := fun heq => hpend (heq ▸ hmem)
  exact ⟨d, hlocal, by rw [lookup_insert_ne hne, hremote]⟩

variable {askFails : Bool} {σ : System} {jobId : String} {st refreshed : Database}

lemma inv_syncWithIssuer (hphase : job.phase = .syncing pending t f) (hinv : job.Inv deps self) :
  (syncWithIssuer job askFails).Inv deps self := by
  rw [syncWithIssuer]
  split
  · rename_i hnot
    exact inv_taskDone hphase hinv (fun _ _ hmem => absurd hmem hnot)
  · split
    · exact inv_taskDone hphase hinv (fun _ hfail => by cases hfail)
    · rename_i r hr
      refine inv_taskDone hphase hinv (fun htrig _ _ _ => ?_)
      obtain ⟨c, d, hc, hd, rfl⟩ := ChecksumStorage.compareChecksumFor_ok hr
      have hsame : c.compareWith d = .EQUAL := by simpa using htrig
      obtain rfl := Checksum.compareWith_eq_EQUAL.mp hsame
      exact ⟨c, hc, hd⟩

variable {attempts : ℕ}

lemma exchangeOf_ok {r : ExchangeJobInfoResponse}
  (h : exchangeOf σ target jobId job attempts = .ok r) (hcode : r.code = .OK) :
  job.session.checksums.localChecksums.lookup target = r.expectedServerChecksum := by
  obtain ⟨sum, hsum, h⟩ := bind_eq_ok.mp h
  rw [ChecksumStorage.getLocal_eq_ok] at hsum
  split at h
  · cases h
  · dsimp only at h
    rw [exchangeJobInfo.eq_def] at h
    split at h
    · cases h
    · split at h
      · cases h
        cases hcode
      · split at h
        · cases h
          cases hcode
        · rename_i info hinfo
          cases h
          dsimp only at hcode ⊢
          split at hcode
          · rename_i hequal
            rw [hsum, Checksum.compareWith_eq_EQUAL.mp hequal]
          · cases hcode

lemma inv_syncWithOtherParty (hphase : job.phase = .syncing pending t f)
  (hmem : target ∈ pending.map (·.party)) (hinv : job.Inv deps self) :
  (syncWithOtherParty job target attempts (exchangeOf σ target jobId job attempts)
    askFails).Inv deps self := by
  have hfails : (job.taskDone target false true).Inv deps self :=
    inv_taskDone hphase hinv (fun _ hfail => by cases hfail)
  rw [syncWithOtherParty.eq_def]
  split
  · exact hfails
  · rename_i r hr
    have hanswer : ∀ job', job.record target r.expectedServerChecksum r.endpoint = .ok job' →
        r.code = .OK ∨ r.code = .DATA_INCONSISTENCY →
        (job'.taskDone target (r.code = .DATA_INCONSISTENCY)
          (r.code = .DATA_INCONSISTENCY && askFails)).Inv deps self := by
      intro job' hrecord hcode
      obtain ⟨hinv', hphase', -, hlocal, hremote⟩ := inv_record hphase hmem hinv hrecord
      refine inv_taskDone (hphase'.trans hphase) hinv' (fun htrig _ _ _ => ?_)
      have hok : r.code = .OK := hcode.resolve_right (by simpa using htrig)
      have hsent := exchangeOf_ok hr hok
      obtain ⟨cs, hsave, -⟩ := bind_eq_ok.mp hrecord
      obtain ⟨c, hc, -⟩ := ChecksumStorage.saveRemote_ok hsave
      exact ⟨c, by rw [hlocal, hsent, hc], by rw [hremote, hc]⟩
    cases hcode : r.code with
    | NOT_SUPPORTED => exact hfails
    | SESSION_NOT_FOUND =>
      dsimp only
      split
      · exact hfails
      · exact inv_retry hphase hinv
    | OK | DATA_INCONSISTENCY =>
      dsimp only
      split
      · exact hfails
      · rename_i job' hrecord
        have := hanswer job' hrecord (by simp [hcode])
        rwa [hcode] at this

lemma replyOf_ok {r : DistributeQueryResponse}
  (h : replyOf deps σ self target jobId job = some (.ok r)) (hsame : r.inconsistent = false)
  (htarget : target ∈ job.session.dataParties) {c : Checksum}
  (hc : r.expectedServerChecksum = some c)
  : job.session.checksums.localChecksums.lookup target = some c := by
  obtain ⟨targetJob, -, h⟩ := bind_eq_some_iff.mp h
  obtain ⟨req, -, h⟩ := bind_eq_some_iff.mp h
  obtain ⟨_, hreq, h⟩ := bind_eq_some_iff.mp h
  obtain rfl := EventRuns.guard_eq_some.mp hreq
  have h := some.inj h
  rw [distributeResponse] at h
  split at h
  · obtain ⟨checksum, -, h⟩ := bind_eq_ok.mp h
    split at h
    · cases h
    · rename_i sent hsent
      cases h
      dsimp only at hsame hc
      have hequal : checksum.compareWith sent = .EQUAL := by simpa using hsame
      obtain rfl := Checksum.compareWith_eq_EQUAL.mp hequal
      rw [distributeRequest, if_pos htarget, hc] at hsent
      exact hsent
  · cases h
    cases hc

lemma inv_receiveReply {response : Except String DistributeQueryResponse}
  (hphase : job.phase = .syncing pending t f) (hmem : target ∈ pending.map (·.party))
  (hinv : job.Inv deps self) (hreply : replyOf deps σ self target jobId job = some response) :
  (receiveReply job target response askFails).Inv deps self := by
  have hfails : (job.taskDone target false true).Inv deps self :=
    inv_taskDone hphase hinv (fun _ hfail => by cases hfail)
  rw [receiveReply.eq_def]
  split
  · exact hfails
  · rename_i r
    split
    · rename_i htarget
      split
      · exact hfails
      · rename_i job' hrecord
        obtain ⟨hinv', hphase', -, hlocal, hremote⟩ := inv_record hphase hmem hinv hrecord
        refine inv_taskDone (hphase'.trans hphase) hinv' (fun htrig _ _ _ => ?_)
        obtain ⟨cs, hsave, -⟩ := bind_eq_ok.mp hrecord
        obtain ⟨c, hc, -⟩ := ChecksumStorage.saveRemote_ok hsave
        exact ⟨c, by rw [hlocal, replyOf_ok hreply htrig htarget hc], by rw [hremote, hc]⟩
    · rename_i hnot
      have hinv' : Job.Inv deps self { job with session := { job.session with
          endpoints := job.session.endpoints.insert target r.endpoint}} := by
        rw [Job.Inv, hphase] at hinv ⊢
        exact ⟨⟨hinv.1.owners, hinv.1.sums⟩, hinv.2⟩
      exact inv_taskDone hphase hinv' (fun _ _ htarget => absurd htarget hnot)

lemma inv_finishSync (hinv : job.Inv deps self)
    (hclean : job.isIssuer = false → job.syncFailed = false)
  (h : finishSync job = some job') : job'.Inv deps self := by
  rw [finishSync] at h
  split at h
  · rename_i triggered failed hphase
    rw [Job.Inv, hphase] at hinv
    obtain ⟨hfresh, -, herr, hagrees⟩ := hinv
    split at h
    · rename_i hfailed
      split at h
      · cases h
        trivial
      · rename_i hissuer
        have hnot : job.isIssuer = false := Bool.not_eq_true _ ▸ hissuer
        have hclean := hclean hnot
        rw [Job.syncFailed, hphase] at hclean
        exact absurd hfailed (by simpa using hclean)
    · rename_i hfailed
      cases h
      refine ⟨⟨hfresh.owners, hfresh.sums⟩, herr, fun htrig => ?_⟩
      exact hagrees htrig (by simpa using hfailed)
  · cases h

lemma inv_reprepare (hinv : job.Inv deps self)
  (hsame : ∀ prepared, prepare deps self job.session.job true job.session.usedTables st st =
    .ok prepared → prepared.dataParties = job.session.dataParties)
  (h : reprepare deps self st job = some job') : job'.Inv deps self := by
  rw [reprepare] at h
  split at h
  · rename_i hphase
    rw [Job.Inv, hphase.1] at hinv
    dsimp only at h
    split at h
    · cases h
      trivial
    · rename_i s hs
      cases h
      obtain ⟨prepared, hprepared, hs⟩ := bind_eq_ok.mp hs
      refine ⟨fresh_saveLocalChecksums hs fun p => ?_, hinv.2.1⟩
      rw [← (prepare_ok hprepared).1 p, hsame prepared hprepared]
  · cases h

lemma gated_of_agrees (hfresh : job.session.Fresh deps)
  (herr : job.syncError = false) (hagrees : job.session.AgreesBut self [])
  (hinfo : sessionInfo deps self job.session = .ok info) :
  Job.Gated deps self {job with info := info, phase := .running} := by
  refine ⟨fun t ht => ?_, herr, hfresh.owners⟩
  have howner : t.table.owner ∈ job.session.dataParties := (hfresh.owners _).mpr ⟨t, ht, rfl⟩
  obtain ⟨c, hc, hlocal⟩ := hfresh.sums t.table.owner howner
  refine ⟨c, hc, ?_⟩
  rw [Job.reported]
  split
  · rename_i hself
    rw [hself] at howner hlocal
    rw [← sessionInfo_ok hinfo howner, hlocal]
  · rename_i hself
    obtain ⟨d, hd, hremote⟩ := hagrees t.table.owner howner hself (by simp)
    rw [hlocal] at hd
    cases hd
    exact hremote

lemma inv_start (hinv : job.Inv deps self) (h : start deps self job = some job') :
    job'.Inv deps self := by
  rw [start] at h
  split at h
  · rename_i hphase
    split at h
    · cases h
      trivial
    · rename_i info hrun
      cases h
      simp only [bind_eq_ok] at hrun
      obtain ⟨_, hcheck, plan, -, _, -, hinfo⟩ := hrun
      rcases hphase with hphase | ⟨hphase, hagain⟩
      · rw [Job.Inv, hphase] at hinv
        rw [recheck, if_pos hphase] at hcheck
        exact gated_of_agrees hinv.1 hinv.2
          (fun p hp hself _ => agrees_of_checkChecksum hcheck hp hself) hinfo
      · rw [Job.Inv, hphase] at hinv
        exact gated_of_agrees hinv.1 hinv.2.1 (hinv.2.2 hagain) hinfo
  · cases h

variable {s : Session}

lemma prepareSession_ok {desc : JobDesc} {project : Project}
  (h : prepareSession deps self desc project st refreshed = .ok s) :
  (∀ p, p ∈ s.dataParties ↔ ∃ t ∈ s.runner.tables, t.table.owner = p) ∧
    s.dataParties ⊆ s.workParties ∧ s.runner.prepareAgain = false := by
  obtain ⟨spuProtocol, -, h⟩ := bind_eq_ok.mp h
  obtain ⟨usedTables, -, h⟩ := bind_eq_ok.mp h
  obtain ⟨prepared, hprepared, h⟩ := bind_eq_ok.mp h
  obtain ⟨_, -, h⟩ := bind_eq_ok.mp h
  cases h
  exact prepare_ok hprepared

variable {req : DistributeQueryRequest}

lemma saveIssuerReport_ok {s' : Session} (h : saveIssuerReport req s = .ok s') :
  s'.dataParties = s.dataParties ∧ s'.runner = s.runner := by
  rw [saveIssuerReport] at h
  dsimp only at h
  split at h
  · obtain ⟨cs, -, h⟩ := bind_eq_ok.mp h
    cases h
    exact ⟨rfl, rfl⟩
  · cases h
    exact ⟨rfl, rfl⟩

lemma inv_submitQuery {projectId query : String}
  (h : submitQuery deps self projectId query st refreshed = .ok job) : job.Inv deps self := by
  obtain ⟨_, -, h⟩ := bind_eq_ok.mp h
  obtain ⟨project, -, h⟩ := bind_eq_ok.mp h
  obtain ⟨s, hs, h⟩ := bind_eq_ok.mp h
  obtain ⟨s', hs', h⟩ := bind_eq_ok.mp h
  obtain ⟨info, -, h⟩ := bind_eq_ok.mp h
  cases h
  obtain ⟨howners, hwork, hagain⟩ := prepareSession_ok hs
  have hfresh := fresh_saveLocalChecksums hs' howners
  obtain ⟨⟨cs, rfl, -⟩, -⟩ := saveLocalChecksums_ok hs'
  refine ⟨hfresh, hagain, rfl, fun _ _ p hp hself hpend => absurd ?_ hpend⟩
  -- every data party is waited for
  rw [map_map, mem_map]
  exact ⟨p, by simp [hwork hp, hself], rfl⟩

lemma inv_distributeQuery {jobExists : Bool}
  (h : distributeQuery deps self jobExists st refreshed req = .ok job) : job.Inv deps self := by
  obtain ⟨project, -, h⟩ := bind_eq_ok.mp h
  obtain ⟨s, hs, h⟩ := bind_eq_ok.mp h
  obtain ⟨s₁, hs₁, h⟩ := bind_eq_ok.mp h
  obtain ⟨s₂, hs₂, h⟩ := bind_eq_ok.mp h
  obtain ⟨info, -, h⟩ := bind_eq_ok.mp h
  cases h
  obtain ⟨howners, -, hagain⟩ := prepareSession_ok hs
  obtain ⟨hparties, hrunner⟩ := saveIssuerReport_ok hs₁
  rw [← hparties, ← hrunner] at howners
  have hfresh := fresh_saveLocalChecksums hs₂ howners
  obtain ⟨⟨cs, rfl, -⟩, -⟩ := saveLocalChecksums_ok hs₂
  rw [Job.Inv]
  dsimp only
  cases req.dryRun with
  | true => trivial
  | false =>
    refine ⟨hfresh, by rw [hrunner, hagain], rfl, fun _ _ p hp hself hpend => absurd ?_ hpend⟩
    rw [map_cons, map_map, mem_cons, mem_map]
    by_cases hissuer : p = req.clientId
    · exact .inl hissuer
    · exact .inr ⟨p, by simp [hissuer, hself, hp], rfl⟩

variable (deps : Deps)

/-- At a broker that is not the issuer, syncing ends without an error. A second preparation finds
the data parties of the first. -/
def Undisturbed : Event → System → Prop
  | .finish self jobId, σ =>
    ∀ job ∈ σ.jobs self jobId, job.isIssuer = false → job.syncFailed = false
  | .reprepare self jobId, σ => ∀ job ∈ σ.jobs self jobId,
      ∀ prepared ∈ (prepare deps self job.session.job true job.session.usedTables
        (σ.storage self) (σ.storage self)).toOption, prepared.dataParties = job.session.dataParties
  | _, _ => True

instance : ∀ (e : Event) (σ : System), Decidable (Undisturbed deps e σ)
  | .finish self jobId, σ => inferInstanceAs (Decidable (∀ job ∈ σ.jobs self jobId,
      job.isIssuer = false → job.syncFailed = false))
  | .reprepare self jobId, σ => inferInstanceAs (Decidable (∀ job ∈ σ.jobs self jobId,
      ∀ prepared ∈ (prepare deps self job.session.job true job.session.usedTables
        (σ.storage self) (σ.storage self)).toOption,
        prepared.dataParties = job.session.dataParties))
  | .storageChange .., _ | .submit .., _ | .distribute .., _ | .distributeReply .., _
  | .syncIssuer .., _ | .exchange .., _ | .callFails .., _ | .start .., _ => .isTrue trivial

def System.Inv (σ : System) : Prop :=
  ∀ self jobId job, σ.jobs self jobId = some job → job.Inv deps self

variable {deps} {σ' : System} {self : PartyCode} {job : Job}

lemma System.Inv.setJob (h : σ.Inv deps) {jobId : String}
  (hjob : job.Inv deps self) : (σ.setJob self jobId job).Inv deps := by
  intro self' jobId' job' hget
  rw [System.setJob] at hget
  dsimp only at hget
  by_cases hself : self' = self
  · subst hself
    rw [update_self] at hget
    by_cases hid : jobId' = jobId
    · subst hid
      rw [update_self] at hget
      cases hget
      exact hjob
    · rw [update_of_ne hid] at hget
      exact h _ _ _ hget
  · rw [update_of_ne hself] at hget
    exact h _ _ _ hget

lemma inv_step {e : Event} (hallowed : Undisturbed deps e σ) (hinv : σ.Inv deps)
  (h : step deps e σ = some σ') : σ'.Inv deps := by
  cases e with
  | storageChange self st =>
    cases h
    exact hinv
  | submit self jobId projectId query refreshed =>
    obtain ⟨_, -, h⟩ := bind_eq_some_iff.mp h
    obtain ⟨job, hjob, h⟩ := bind_eq_some_iff.mp h
    cases h
    exact hinv.setJob (inv_submitQuery (toOption_eq_some.mp hjob))
  | distribute self req refreshed =>
    obtain ⟨job, hjob, h⟩ := bind_eq_some_iff.mp h
    cases h
    exact hinv.setJob (inv_distributeQuery (toOption_eq_some.mp hjob))
  | distributeReply self target jobId askFails =>
    obtain ⟨job, hjob, h⟩ := bind_eq_some_iff.mp h
    obtain ⟨_, -, h⟩ := bind_eq_some_iff.mp h
    obtain ⟨task, htask, h⟩ := bind_eq_some_iff.mp h
    obtain ⟨response, hresponse, h⟩ := bind_eq_some_iff.mp h
    cases h
    obtain ⟨pending, t, f, hphase, hmem⟩ := exists_phase_of_task htask
    exact hinv.setJob (inv_receiveReply hphase hmem (hinv _ _ _ hjob) hresponse)
  | syncIssuer self jobId askFails | exchange self target jobId askFails
  | callFails self target jobId =>
    obtain ⟨job, hjob, h⟩ := bind_eq_some_iff.mp h
    obtain ⟨_, -, h⟩ := bind_eq_some_iff.mp h
    obtain ⟨task, htask, h⟩ := bind_eq_some_iff.mp h
    cases h
    obtain ⟨pending, t, f, hphase, hmem⟩ := exists_phase_of_task htask
    have hjob := hinv _ _ _ hjob
    first
    | exact hinv.setJob (inv_syncWithIssuer hphase hjob)
    | exact hinv.setJob (inv_syncWithOtherParty hphase hmem hjob)
    | exact hinv.setJob (inv_taskDone hphase hjob (fun _ hfail => by cases hfail))
  | finish self jobId =>
    obtain ⟨job, hjob, h⟩ := bind_eq_some_iff.mp h
    obtain ⟨job', hjob', h⟩ := bind_eq_some_iff.mp h
    cases h
    exact hinv.setJob (inv_finishSync (hinv _ _ _ hjob) (hallowed job hjob) hjob')
  | reprepare self jobId =>
    obtain ⟨job, hjob, h⟩ := bind_eq_some_iff.mp h
    obtain ⟨job', hjob', h⟩ := bind_eq_some_iff.mp h
    cases h
    refine hinv.setJob (inv_reprepare (hinv _ _ _ hjob) (fun prepared hprepared => ?_) hjob')
    exact hallowed job hjob prepared (toOption_eq_some.mpr hprepared)
  | start self jobId =>
    obtain ⟨job, hjob, h⟩ := bind_eq_some_iff.mp h
    obtain ⟨job', hjob', h⟩ := bind_eq_some_iff.mp h
    cases h
    exact hinv.setJob (inv_start (hinv _ _ _ hjob) hjob')

/-- In every undisturbed run, an engine is started only with checksums that the owners of the
compiled tables reported. -/
theorem started_engine_gated (deps : Deps) (storage : PartyCode → Database) (es : List Event)
  (σ : System) (hes : EventRuns.Along (step deps) (Undisturbed deps) es (.initial storage))
  (hrun : EventRuns.run (step deps) es (.initial storage) = some σ) (self : PartyCode)
  (jobId : String) (job : Job) (hjob : σ.jobs self jobId = some job)
  (hphase : job.phase = .running) : job.Gated deps self := by
  have hinit : (System.initial storage).Inv deps := by
    intro self jobId job hget
    cases hget
  have hinv : σ.Inv deps :=
    EventRuns.run_invariant (fun e s s' hallowed hs hstep => inv_step hallowed hs hstep) hes hinit
      hrun
  have hjobInv := hinv self jobId job hjob
  rw [Job.Inv, hphase] at hjobInv
  exact hjobInv

/-- Owners of compiled tables whose checksum was not reported as this broker has it. -/
def Job.ungatedOwners (deps : Deps) (self : PartyCode) (job : Job) : List PartyCode :=
  (job.session.runner.tables.filter (fun t =>
    (job.session.runner.partyChecksum deps t.table.owner).toOption.all
      (fun c => job.reported self t.table.owner ≠ some c))).map (·.table.owner)

variable {deps : Deps}

lemma Job.Gated.ungatedOwners_eq_nil (h : job.Gated deps self) :
  job.ungatedOwners deps self = [] := by
  rw [ungatedOwners, map_eq_nil_iff, filter_eq_nil_iff]
  intro t ht
  obtain ⟨c, hc, hreported⟩ := h.sums t ht
  simp [hc, hreported, Except.toOption]

/-- A parser that finds the given tables in every query, a hash that keeps its input, and a
compiler that lets the owners and the issuer take part. -/
def demoDeps (tables : List String) : Deps where
  order := .inserted
  getSourceTables _ := .ok tables
  collectIntoParties _ := .ok []
  sha256 s := 0::s.toList.map (fun c => UInt8.ofNat c.toNat)
  typeDesc := .ok
  spuProtocol _ := .ok (some .SEMI2K)
  checkRefTable _ := .ok ()
  compile req :=
    let parties := sliceDeDup (req.issuer::req.catalog.map (·.table.owner))
    .ok ⟨parties, parties⟩
  checkParty _ := .ok ()
  authorizedWritableParties _ := []
  endpoint p := p
  exchangeJobInfoRetryTimes _ := 1

def demoTable (name : String) (owner : PartyCode) (dType : String) : TableMeta :=
  ⟨{projectID := "p", tableName := name, owner}, [⟨"k", dType⟩]⟩

/-- A project of three parties with the given tables. -/
def demoStorage (tables : List TableMeta) : Database :=
  let db : Except String Database := do
    let db ← Database.createProject {} {id := "p", creator := "alice"}
    let db ← db.addProjectMembers [⟨"p", "bob"⟩, ⟨"p", "carol"⟩]
    tables.foldlM Database.addTable db
  db.toOption.getD {}

def demoRequest (deps : Deps) (storage : PartyCode → Database) (issuer target : PartyCode) :
    DistributeQueryRequest :=
  match submitQuery deps issuer "p" "q" (storage issuer) (storage issuer) with
  | .ok job => distributeRequest deps issuer "job" job.session target
  | .error _ => ⟨version, "p", "job", "q", issuer, none, none, issuer, false⟩

def jobAfter (deps : Deps) (storage : PartyCode → Database) (es : List Event) (self : PartyCode) :
    Option Job :=
  (EventRuns.run (step deps) es (.initial storage)).bind (fun σ => σ.jobs self "job")

def twoTables : Database := demoStorage
  [demoTable "ta" "alice" "int", demoTable "tb" "bob" "int"]

def staleStorage (p : PartyCode) : Database :=
  if p = "bob" then
    demoStorage [demoTable "ta" "alice" "string", demoTable "tb" "bob" "int"]
  else twoTables

/-- Alice's job reaches bob, who syncs with alice and executes. -/
def twoPartyRun (storage : PartyCode → Database) (askFails : Bool) : List Event :=
  [.submit "alice" "job" "p" "q" (storage "alice"),
    .distribute "bob" (demoRequest (demoDeps ["ta", "tb"]) storage "alice" "bob") (storage "bob"),
    .syncIssuer "bob" "job" askFails, .finish "bob" "job", .start "bob" "job"]

theorem twoPartyRun_gated : ∃ job, jobAfter (demoDeps ["ta", "tb"]) (fun _ => twoTables)
    (twoPartyRun (fun _ => twoTables) false) "bob" = some job ∧
  job.Gated (demoDeps ["ta", "tb"]) "bob" := by
  have hphase : (jobAfter (demoDeps ["ta", "tb"]) (fun _ => twoTables)
      (twoPartyRun (fun _ => twoTables) false) "bob").map (·.phase) = some .running := by decide
  obtain ⟨job, hjob, hphase⟩ := map_eq_some_iff.mp hphase
  obtain ⟨σ, hrun, hget⟩ := bind_eq_some_iff.mp hjob
  exact ⟨job, hjob, started_engine_gated _ _ _ σ (by decide) hrun "bob" "job" job hget hphase⟩

/-- Table `v` went from carol to alice, which bob does not know yet. -/
def movedStorage (p : PartyCode) : Database :=
  if p = "bob" then demoStorage
    [demoTable "t" "bob" "int", demoTable "u" "carol" "int", demoTable "v" "carol" "int"]
  else demoStorage
    [demoTable "t" "bob" "int", demoTable "u" "carol" "int", demoTable "v" "alice" "int"]

/-- Bob learns of the new owner between his two preparations. -/
def ownerChangeRun : List Event :=
  let deps := demoDeps ["t", "u", "v"]
  [.submit "alice" "job" "p" "q" (movedStorage "alice"),
    .distribute "carol" (demoRequest deps movedStorage "alice" "carol") (movedStorage "carol"),
    .distribute "bob" (demoRequest deps movedStorage "alice" "bob") (movedStorage "bob"),
    .syncIssuer "bob" "job" false, .exchange "bob" "carol" "job" false,
    .storageChange "bob" (movedStorage "carol"), .finish "bob" "job", .reprepare "bob" "job",
    .start "bob" "job"]

lemma not_gated_of_ungatedOwners {storage : PartyCode → Database} {es : List Event}
  (h : (jobAfter deps storage es self).map (fun job => (job.phase, job.ungatedOwners deps self)) =
    some (.running, [p])) :
  ∃ job, jobAfter deps storage es self = some job ∧ job.phase = .running ∧
    ¬job.Gated deps self := by
  obtain ⟨job, hjob, hout⟩ := map_eq_some_iff.mp h
  obtain ⟨hphase, howners⟩ := Prod.mk.inj hout
  refine ⟨job, hjob, hphase, fun hgated => ?_⟩
  rw [hgated.ungatedOwners_eq_nil] at howners
  cases howners

/-- Bob starts his engine though asking alice for the rows that differ failed, and though alice,
who never reported a checksum to him, became a data party. -/
theorem engine_started_ungated :
  (∃ job, jobAfter (demoDeps ["ta", "tb"]) staleStorage (twoPartyRun staleStorage true) "bob" =
      some job ∧ job.phase = .running ∧ ¬job.Gated (demoDeps ["ta", "tb"]) "bob") ∧
    ∃ job, jobAfter (demoDeps ["t", "u", "v"]) movedStorage ownerChangeRun "bob" = some job ∧
      job.phase = .running ∧ ¬job.Gated (demoDeps ["t", "u", "v"]) "bob" :=
  ⟨not_gated_of_ungatedOwners (p := "alice") (by decide),
    not_gated_of_ungatedOwners (p := "alice") (by decide)⟩

end Scql.Broker
