import Mathlib.Data.UInt
import Yew.Signer.Frame

/-!
# Sign-once over runs

Whatever requests come and however their writes end, the records in memory contain those on disk,
and no record on disk is ever changed (`OnceMoves`).  While no write fails the two are the same.

The set signatures of a run are read off its history.  They agree as long as each request finds its
set under its own spelling of the set id, and what it finds in memory is on disk too.

The records are those of `yewd/signer/src/signonce.rs`, the request is handled in `sign.rs`.

## Source

* `yewd/signer/src/imported.rs`: `OnDisk`
* `yewd/signer/src/pqimported.rs`: `OnDisk`
* `yewd/signer/src/signonce.rs`: `OnDisk`
-/

namespace Yew.Signer

open Tx Keys Proto Proc Vault SetAct SignOnce

/-! ## Memory and disk -/

/-- The records of the file. -/
def Disk.records (d : Disk) : SignOnce := (d.once.map ofFile).getD (fresh false)

/-- Memory has every record of the file. -/
def Ext (s : St) : Prop := Keeps s.disk.records s.core.once

/-- The file has every record of memory. -/
def Saved (s : St) : Prop := Keeps s.core.once s.disk.records

/-- What a request does to the records: memory keeps containing the file, the file keeps its
records, and while no write can fail the file keeps up with memory. -/
structure OnceMoves (s s' : St) : Prop where
  ext : Ext s → Ext s'
  keeps : Ext s → Keeps s.disk.records s'.disk.records
  saved : s.writes = [] → Ext s → Saved s → Saved s'
  writes : s'.writes <:+ s.writes

instance : Proc.Path OnceMoves where
  refl s := ⟨id, fun _ ↦ .refl _, fun _ _ h ↦ h, List.suffix_refl _⟩
  trans {a b c} hab hbc := by
    refine ⟨fun h ↦ hbc.ext (hab.ext h), fun h ↦ (hab.keeps h).trans (hbc.keeps (hab.ext h)), ?_,
      hbc.writes.trans hab.writes⟩
    intro hw he hs
    have hb : b.writes = [] := by
      have := hab.writes
      rw [hw] at this
      exact List.suffix_nil.mp this
    exact hbc.saved hb (hab.ext he) (hab.saved hw he hs)

theorem OnceMoves.of_same {s s' : St} (hcore : s'.core.once = s.core.once)
    (hdisk : s'.disk.once = s.disk.once) (hw : s'.writes <:+ s.writes) : OnceMoves s s' := by
  have hrec : s'.disk.records = s.disk.records := by simp [Disk.records, hdisk]
  refine ⟨?_, fun _ ↦ ?_, fun _ _ ↦ ?_, hw⟩
  · rw [Ext, Ext, hrec, hcore]
    exact id
  · rw [hrec]
    exact .refl _
  · rw [Saved, Saved, hrec, hcore]
    exact id

theorem record?_records_toFile (o : SignOnce) (d : Disk) (a b : String) :
    (Disk.records { d with once := some o.toFile }).record? a b = o.record? a b := by
  simp [Disk.records, record?_ofFile_toFile]

/-- A change of the records in memory that keeps them, and its save. -/
theorem onceMoves_change {f : SignOnce → SignOnce} {s : St}
    (hf : Keeps s.core.once (f s.core.once)) : OnceMoves s (changeOnce f s).2 := by
  let s₁ : St := { s with core := { s.core with once := f s.core.once } }
  rw [changeOnce_cases]
  have hnew : ∀ s', s'.core = s₁.core →
      s'.disk = { s.disk with once := some (f s.core.once).toFile } → s'.writes <:+ s.writes →
      OnceMoves s s' := by
    intro s' hc hd hw
    have hfile : ∀ a b, s'.disk.records.record? a b = (f s.core.once).record? a b := by
      intro a b
      rw [hd]
      exact record?_records_toFile _ _ _ _
    refine ⟨fun _ a b v h ↦ ?_, fun he a b v h ↦ ?_, fun _ _ _ a b v h ↦ ?_, hw⟩
    · rw [hc]
      rwa [hfile] at h
    · rw [hfile]
      exact hf a b v (he a b v h)
    · rw [hfile]
      rwa [hc] at h
  have hold : ∀ s', s'.core = s₁.core → s'.disk = s.disk → s.writes ≠ [] →
      s'.writes <:+ s.writes → OnceMoves s s' := by
    intro s' hc hd hne hw
    refine ⟨fun he ↦ ?_, fun _ ↦ ?_, fun hnil ↦ absurd hnil hne, hw⟩
    · rw [Ext, hd, hc]
      exact he.trans hf
    · rw [hd]
      exact .refl _
  obtain ⟨ws, hws, h | ⟨hne, ⟨e, h⟩ | ⟨d, hd, h⟩⟩⟩ := replaceFile_cases
    (fun d ↦ { d with once := some (f s.core.once).toFile }) s₁
  · rw [h]
    exact hnew _ rfl rfl hws
  · rw [h]
    exact hold _ rfl rfl hne hws
  · rw [h]
    rcases hd with rfl | rfl
    · exact hnew _ rfl rfl hws
    · exact hold _ rfl rfl hne hws

theorem moves_change {f : SignOnce → SignOnce} (hf : ∀ o, Keeps o (f o)) :
    Moves OnceMoves (changeOnce f) := fun s ↦ onceMoves_change (hf s.core.once)

theorem onceMoves_core : Moves OnceMoves core := fun s ↦ Proc.Path.refl s

theorem onceMoves_markRestored : Moves OnceMoves markRestored :=
  onceMoves_core.bind fun _ ↦ .ite (.pure _) (moves_change fun o ↦ .refl o)

theorem onceMoves_keyImported (hash : String) (members : Option (List String)) :
    Moves OnceMoves (keyImported hash members) :=
  .ite (onceMoves_core.bind fun _ ↦ .ite (.pure _) (moves_change fun o ↦ .refl o))
    onceMoves_markRestored

theorem onceMoves_joinsSeen (hashes : List String) : Moves OnceMoves (joinsSeen hashes) :=
  onceMoves_core.bind fun _ ↦ .ite (.pure _) (moves_change fun o ↦ .refl o)

theorem onceMoves_acknowledge : Moves OnceMoves acknowledge := moves_change fun o ↦ .refl o

theorem onceMoves_importOnce (rs : List SignedRecord) : Moves OnceMoves (importOnce rs) := by
  intro s
  cases hn : s.core.once.importCounts rs with
  | error e =>
    have h : importOnce rs s = (.ok (.error e), s) := by
      simp [importOnce, Proc.bind_apply, core, hn]
    rw [h]
    exact Proc.Path.refl s
  | ok n =>
    have hkeep : Keeps s.core.once (s.core.once.insertAll rs) :=
      keeps_insertAll _ (.refl _) (importCounts_eq_ok hn)
    simp only [importOnce, Proc.bind_apply, core, hn]
    refine Moves.bind_at (onceMoves_change hkeep) fun x ↦ ?_
    cases x with
    | error e => exact .pure _
    | ok => exact .pure _

instance : Tame OnceMoves where
  free h := .of_same h.once h.diskOnce h.writes
  keyImported := onceMoves_keyImported
  joinsSeen := onceMoves_joinsSeen

/-! ## Requests -/

section

variable (C : Crypto) (L : Sapling.Lib)

theorem onceMoves_recordGuard (r : Attested) : Moves OnceMoves (recordGuard r) := by
  refine moves_nextWrite.bind fun w ↦ Moves.bind (fun s ↦ .of_same rfl rfl (List.suffix_refl _))
    fun _ ↦ Moves.bind (fun s ↦ .of_same rfl rfl (List.suffix_refl _)) fun _ ↦ ?_
  cases w with
  | done => exact .pure _
  | failed e kept => exact .pure _
  | cut kept => exact .throw _

theorem onceMoves_signOnce (r : SetSignRequest) (x : SetSubject) (secrets : List SecretKey) :
    Moves OnceMoves (signOnce r x secrets) := by
  intro s
  rcases signOnce_cases r x secrets s with h | ⟨hnone, -, h⟩
  · rw [h]
    exact Proc.Path.refl s
  · rw [h]
    have hkeep : Keeps s.core.once (s.core.once.insert (setRecord r x)) :=
      keeps_insert (.inl hnone)
    exact Moves.bind_at (onceMoves_change hkeep) fun _ ↦ moves_orRefuse _ _ _

theorem onceMoves_signSet (r : SetSignRequest) : Moves OnceMoves (signSet C r) :=
  ends_signSet C (R := fun _ ↦ OnceMoves) (onceMoves_signOnce r)

/-- No request breaks the records. -/
theorem onceMoves_handle (version : UInt32) (r : Request) :
    Moves OnceMoves (handle C L version r) :=
  moves_handle C L version r (fun x _ ↦ onceMoves_signSet C x)
    (fun x _ ↦ ends_signAttestation C (R := fun _ ↦ OnceMoves)
      (ends_guardedAttestation C onceMoves_recordGuard) x)
    (fun x _ ↦ ends_cancelCosign C (R := fun _ ↦ OnceMoves)
      (ends_guardedAttestation C onceMoves_recordGuard) x)
    (fun _ ↦ onceMoves_acknowledge) fun _ ↦ onceMoves_importOnce

/-! ## Restarts -/

/-- A start leaves the file's records alone, and has them in memory. -/
theorem load_records (restored : Bool) (w : WriteOutcome) (d : Disk) :
    Keeps d.records (SignOnce.load restored w d).2.records ∧
      ∀ o, (SignOnce.load restored w d).1 = .ok o →
        Keeps (SignOnce.load restored w d).2.records o ∧
          Keeps o (SignOnce.load restored w d).2.records := by
  cases hd : d.once with
  | some f =>
    by_cases hf : f.format = SignOnce.format
    · have hload : SignOnce.load restored w d = (.ok (ofFile f), d) := by
        simp [SignOnce.load, hd, hf]
      have hrec : d.records = ofFile f := by simp [Disk.records, hd]
      rw [hload]
      refine ⟨.refl _, ?_⟩
      intro o ho
      cases ho
      rw [hrec]
      exact ⟨.refl _, .refl _⟩
    · have hload : SignOnce.load restored w d =
          (.error (.error ("signonce.json: unknown format " ++ f.format)), d) := by
        simp [SignOnce.load, hd, hf]
      rw [hload]
      exact ⟨.refl _, fun o ho ↦ by cases ho⟩
  | none =>
    have hnone : ∀ o : SignOnce, Keeps d.records o := by
      intro o a b v h
      simp [Disk.records, hd, record?, fresh] at h
    have hsaved : ∀ o : SignOnce, Keeps (Disk.records { d with once := some o.toFile }) o ∧
        Keeps o (Disk.records { d with once := some o.toFile }) := by
      intro o
      constructor
      · intro a b v h
        rwa [record?_records_toFile] at h
      · intro a b v h
        rwa [record?_records_toFile]
    refine ⟨hnone _, ?_⟩
    intro o ho
    cases w with
    | done =>
      simp only [SignOnce.load, hd] at ho ⊢
      cases ho
      exact hsaved _
    | failed e kept =>
      simp only [SignOnce.load, hd] at ho
      cases ho
    | cut kept =>
      simp only [SignOnce.load, hd] at ho
      cases ho

/-- The same of the whole start. -/
theorem openSigner_records (network : Network) (w₁ w₂ : WriteOutcome) (d : Disk) :
    Keeps d.records (openSigner C network w₁ w₂ d).2.records ∧
      ∀ c, (openSigner C network w₁ w₂ d).1 = .ok c →
        Keeps (openSigner C network w₁ w₂ d).2.records c.once ∧
          Keeps c.once (openSigner C network w₁ w₂ d).2.records := by
  have hguard : ∀ d, (loadGuard w₂ d).2.records = d.records := fun _ ↦ rfl
  constructor
  · rcases openSigner_disk C network w₁ w₂ d with h | ⟨restored, h | h⟩
    · rw [h]
      exact .refl _
    · rw [h]
      exact (load_records restored w₁ d).1
    · rw [h, hguard]
      exact (load_records restored w₁ d).1
  · intro c hc
    have ho := openSigner_eq_ok C (Prod.ext hc rfl)
    have hrec := hguard (SignOnce.load c.ks.restored w₁ d).2
    rw [ho.guard] at hrec
    dsimp only at hrec
    rw [hrec]
    exact (load_records c.ks.restored w₁ d).2 c.once ho.once

/-! ## Worlds -/

/-- The process, if one runs, has every record of the file. -/
def World.Ext (w : World) : Prop := ∀ c, w.core = some c → Keeps w.disk.records c.once

/-- The file has every record of the process. -/
def World.Saved (w : World) : Prop := ∀ c, w.core = some c → Keeps c.once w.disk.records

/-- The event can make no write fail. -/
def Event.Writes : Event → Prop
  | .request _ writes _ _ => writes = []
  | .restart _ _ => True

variable (network : Network)

theorem World.ext_step {w : World} (hw : w.Ext) (e : Event) :
    (w.step C L network e).2.Ext ∧ Keeps w.disk.records (w.step C L network e).2.disk.records := by
  cases e with
  | request env writes version r =>
    cases hc : w.core with
    | none =>
      have hstep : (w.step C L network (.request env writes version r)).2 = w := by
        simp [World.step, hc]
      rw [hstep]
      exact ⟨hw, .refl _⟩
    | some c =>
      have hmoves := onceMoves_handle C L version r (startSt c w.disk env writes)
      have hext : Signer.Ext (startSt c w.disk env writes) := hw c hc
      simp only [World.step, hc]
      refine ⟨?_, hmoves.keeps hext⟩
      intro c' hc'
      rw [eq_of_survives hc']
      exact hmoves.ext hext
  | restart w₁ w₂ =>
    obtain ⟨hkeep, hmem⟩ := openSigner_records C network w₁ w₂ w.disk
    refine ⟨?_, hkeep⟩
    intro c hc
    cases hx : (openSigner C network w₁ w₂ w.disk).1 with
    | error e => simp [World.step, hx, Except.toOption] at hc
    | ok c' =>
      simp only [World.step, hx, Except.toOption, Option.some.injEq] at hc
      subst hc
      exact (hmem c' hx).1

theorem World.saved_step {w : World} (hw : w.Ext) (hs : w.Saved) {e : Event} (he : e.Writes) :
    (w.step C L network e).2.Saved := by
  cases e with
  | request env writes version r =>
    cases hc : w.core with
    | none =>
      have hstep : (w.step C L network (.request env writes version r)).2 = w := by
        simp [World.step, hc]
      rw [hstep]
      exact hs
    | some c =>
      have hmoves := onceMoves_handle C L version r (startSt c w.disk env writes)
      simp only [World.step, hc]
      intro c' hc'
      rw [eq_of_survives hc']
      exact hmoves.saved he (hw c hc) (hs c hc)
  | restart w₁ w₂ =>
    obtain ⟨-, hmem⟩ := openSigner_records C network w₁ w₂ w.disk
    intro c hc
    cases hx : (openSigner C network w₁ w₂ w.disk).1 with
    | error e => simp [World.step, hx, Except.toOption] at hc
    | ok c' =>
      simp only [World.step, hx, Except.toOption, Option.some.injEq] at hc
      subst hc
      exact (hmem c' hx).2

/-! ## Set signatures of a run -/

/-- What a set signature was given for, and over what. -/
structure SetFact where
  set : Vault.SetId
  prevout : OutPoint
  role : UInt8
  sighash : String
deriving DecidableEq

/-- Two signatures for one set and one prevout are over the same. -/
def SetFact.Agree (a b : SetFact) : Prop :=
  a.set = b.set → a.prevout = b.prevout → a.role = b.role ∧ a.sighash = b.sighash

/-- The set signatures an answer carries, if it carries any. -/
def setFact : Event × Answer → Option SetFact
  | (.request _ _ _ (.signSet r), .response (.setSigs σ)) =>
    match txidFromHex r.setId, parseOutPoint r.prevout.outpoint with
    | .ok set, .ok op => if σ.sigs = [] then none else some ⟨set, op, r.role, σ.sighash⟩
    | _, _ => none
  | _ => none

theorem setFact_eq_some {x : Event × Answer} {b : SetFact} (h : setFact x = some b) :
    ∃ env writes version r σ, x = (.request env writes version (.signSet r), .response (.setSigs σ)) ∧
      txidFromHex r.setId = .ok b.set ∧ parseOutPoint r.prevout.outpoint = .ok b.prevout ∧
      r.role = b.role ∧ σ.sighash = b.sighash ∧ σ.sigs ≠ [] := by
  unfold setFact at h
  split at h
  · rename_i env writes version r σ
    split at h
    · rename_i set op hset hop
      split at h
      · cases h
      · rename_i hne
        cases h
        exact ⟨env, writes, version, r, σ, rfl, hset, hop, rfl, rfl, hne⟩
    · cases h
  · cases h

/-- An answer with set signatures: the request, and what the signer found or did. -/
theorem setFact_step {w : World} {e : Event} {b : SetFact}
    (h : setFact (e, (w.step C L network e).1) = some b) :
    ∃ env writes version r c c', e = .request env writes version (.signSet r) ∧
      w.core = some c ∧ (w.step C L network e).2.core = some c' ∧
      txidFromHex r.setId = .ok b.set ∧ parseOutPoint r.prevout.outpoint = .ok b.prevout ∧
      r.role = b.role ∧
      ((c.once.record? r.setId b.prevout.display = some (b.role, b.sighash) ∧
          c'.once = c.once ∧ (w.step C L network e).2.disk = w.disk) ∨
        c.once.record? r.setId b.prevout.display = none ∧
          c'.once.record? r.setId b.prevout.display = some (b.role, b.sighash) ∧
          (w.step C L network e).2.disk.once = some c'.once.toFile) := by
  obtain ⟨env, writes, version, r, σ, hx, hset, hop, hrole, hhash, hne⟩ := setFact_eq_some h
  obtain ⟨rfl, hans⟩ := Prod.mk.inj hx
  obtain ⟨c, s', hc, hok, hstep⟩ := World.step_eq_response C L (by simp) hans
  rw [hstep]
  obtain ⟨out, t, hout, hret⟩ := Proc.bind_eq_ok.mp hok
  cases hret
  obtain ⟨x, secrets, hsub, hone, hsig, hlen⟩ := signSet_eq_ok C hout
  obtain ⟨hset', hop'⟩ := setSubject_eq_ok C hsub
  have hprev : x.prevout = b.prevout := by
    rw [hop] at hop'
    exact (Except.ok.inj hop').symm
  have hsec : secrets ≠ [] := by
    rintro rfl
    exact hne (List.length_eq_zero_iff.mp hlen)
  rw [← hhash, hsig, ← hrole, ← hprev]
  refine ⟨env, writes, version, r, c, s'.core, rfl, hc, rfl, hset, hop', rfl, ?_⟩
  rcases signOnce_eq_ok hone hsec with ⟨rfl, hrec⟩ | ⟨hnone, hins, hdisk⟩
  · exact .inl ⟨hrec, rfl, rfl⟩
  · refine .inr ⟨hnone, ?_, hdisk⟩
    rw [hins, record?_insert, if_pos ⟨rfl, rfl⟩]
    rfl

/-! ## One spelling -/

/-- No write fails, and a set-sign request spells the set id as every record of its set and prevout
in memory does. -/
def Spelled (w : World) : Event → Prop
  | .request _ writes _ (.signSet r) => writes = [] ∧ ∀ c set op id v, w.core = some c →
      txidFromHex r.setId = .ok set → parseOutPoint r.prevout.outpoint = .ok op →
      c.once.record? id op.display = some v → txidFromHex id = .ok set → id = r.setId
  | .request _ writes _ _ => writes = []
  | .restart _ _ => True

theorem Spelled.writes {w : World} {e : Event} (h : Spelled w e) : e.Writes := by
  cases e with
  | request env writes version r =>
    cases r with
    | signSet r => exact h.1
    | _ => exact h
  | restart => trivial

/-- The file holds the record of a signature, under some spelling of its set. -/
def HeldSpelled (w : World) (a : SetFact) : Prop :=
  ∃ id, txidFromHex id = .ok a.set ∧
    w.disk.records.record? id a.prevout.display = some (a.role, a.sighash)

/-- **Sign-once.**  In a run without failing writes in which every set-sign request spells its set
id as the records of that set and prevout do, no two set signatures for one set and one prevout are
over different roles or sighashes. -/
theorem setFacts_agree {seed : SeedFile} {h : List (Event × Answer)} {w : World}
    (t : Trace (World.step C L network) Spelled (World.start seed) h w) :
    h.Pairwise fun y x ↦ ∀ a b, setFact x = some a → setFact y = some b → a.Agree b := by
  refine ((@Trace.held_and_agree _ _ _ _ _ _ _ _ _ (fun w ↦ w.Ext ∧ w.Saved) _ HeldSpelled _ t)
    ?_ ?_ ?_ ?_).2
  · constructor <;> intro c hc <;> cases hc
  · rintro w e ⟨hext, hsaved⟩ he
    exact ⟨(World.ext_step C L network hext e).1, World.saved_step C L network hext hsaved he.writes⟩
  · rintro w e a ⟨hext, -⟩ - ⟨id, hid, hrec⟩
    exact ⟨id, hid, (World.ext_step C L network hext e).2 _ _ _ hrec⟩
  · rintro w e b ⟨hext, hsaved⟩ he hfact
    have hsaved' := World.saved_step C L network hext hsaved he.writes
    obtain ⟨env, writes, version, r, c, c', rfl, hc, hc', hset, hop, -, hcase⟩ :=
      setFact_step C L network hfact
    refine ⟨⟨r.setId, hset, hsaved' c' hc' _ _ _ ?_⟩, ?_⟩
    · rcases hcase with ⟨hrec, heq, -⟩ | ⟨-, hrec, -⟩
      · rw [heq]
        exact hrec
      · exact hrec
    · rintro a ⟨id, hid, hrec⟩ hsets hprevs
      -- the earlier record is in memory, and the request spells its set the same way
      have hmem := hext c hc _ _ _ hrec
      rw [hprevs] at hmem
      obtain rfl := he.2 c b.set b.prevout id _ hc hset hop hmem (hsets ▸ hid)
      rcases hcase with ⟨hsame, -, -⟩ | ⟨hnone, -, -⟩
      · rw [hmem] at hsame
        obtain ⟨hrole, hhash⟩ := Prod.mk.inj (Option.some.inj hsame)
        exact ⟨hrole, hhash⟩
      · rw [hmem] at hnone
        cases hnone

/-! ## On disk first -/

/-- A set-sign request spells its set id in lower-case digits, and what memory holds for its set and
prevout is on disk too. -/
def OnDisk (w : World) : Event → Prop
  | .request _ _ _ (.signSet r) => (∀ set, txidFromHex r.setId = .ok set → r.setId = txidHex set) ∧
      ∀ c op v, w.core = some c → parseOutPoint r.prevout.outpoint = .ok op →
        c.once.record? r.setId op.display = some v →
        w.disk.records.record? r.setId op.display = some v
  | _ => True

/-- The file holds the record of a signature. -/
def OnFile (w : World) (a : SetFact) : Prop :=
  w.disk.records.record? (txidHex a.set) a.prevout.display = some (a.role, a.sighash)

/-- **Sign-once is durable.**  However writes fail and whenever the signer restarts: in a run in
which no set-sign request meets a record that is in memory alone, every set signature returned has
its record on disk from then on, and no two for one set and one prevout are over different roles or
sighashes. -/
theorem setFacts_onFile {seed : SeedFile} {h : List (Event × Answer)} {w : World}
    (t : Trace (World.step C L network) OnDisk (World.start seed) h w) :
    (∀ x ∈ h, ∀ a, setFact x = some a → OnFile w a) ∧
      h.Pairwise fun y x ↦ ∀ a b, setFact x = some a → setFact y = some b → a.Agree b := by
  refine (@Trace.held_and_agree _ _ _ _ _ _ _ _ _ World.Ext _ _ _ t) ?_ ?_ ?_ ?_
  · intro c hc
    cases hc
  · intro w e hext _
    exact (World.ext_step C L network hext e).1
  · intro w e a hext _ hheld
    exact (World.ext_step C L network hext e).2 _ _ _ hheld
  · intro w e b hext he hfact
    obtain ⟨env, writes, version, r, c, c', rfl, hc, hc', hset, hop, -, hcase⟩ :=
      setFact_step C L network hfact
    have hid : r.setId = txidHex b.set := he.1 b.set hset
    constructor
    · rw [OnFile, ← hid]
      rcases hcase with ⟨hrec, -, hdisk⟩ | ⟨-, hrec, hdisk⟩
      · rw [hdisk]
        exact he.2 c b.prevout _ hc hop hrec
      · rw [Disk.records, hdisk, Option.map_some, Option.getD_some, record?_ofFile_toFile]
        exact hrec
    · intro a hheld hsets hprevs
      have hmem := hext c hc _ _ _ hheld
      rw [hsets, hprevs, ← hid] at hmem
      rcases hcase with ⟨hsame, -, -⟩ | ⟨hnone, -, -⟩
      · rw [hmem] at hsame
        obtain ⟨hrole, hhash⟩ := Prod.mk.inj (Option.some.inj hsame)
        exact ⟨hrole, hhash⟩
      · rw [hmem] at hnone
        cases hnone

end

theorem World.step_signSet {C : Crypto} {L : Sapling.Lib} {network : Network} {c : Core} {d : Disk}
    {env : Env} {ws : List WriteOutcome} {r : SetSignRequest} {x : Except Stop SetSigs} {s' : St}
    (h : signSet C r (startSt c d env ws) = (x, s')) :
    World.step C L network ⟨some c, d⟩ (.request env ws protoVersion (.signSet r)) =
      (answerOf (x.map .setSigs), ⟨survives (x.map .setSigs) s'.core, s'.disk⟩) := by
  refine World.step_of_answer C L ?_
  rw [answer, Proc.bind_apply, h]
  cases x <;> rfl

/-! ## A vault and two unlocks of it -/

/-- A bundle whose BLAKE2b tells messages apart by the sum of their bytes. -/
def sampleCrypto : Crypto :=
  { Crypto.blank with blake2b256 := fun _ b ↦ List.Vector.replicate 32 b.sum }

/-- The set. -/
def sampleSet : Vault.SetId := List.Vector.replicate 32 0xab

/-- A vault of the set, and its script. -/
def sampleVault : VaultParams :=
  ⟨List.Vector.replicate 4 0, sampleSet, 1, sampleSet, 1, ⟨1, List.Vector.replicate 32 0⟩, 0⟩

@[inherit_doc sampleVault]
def sampleScript : Bytes := (buildVault sampleVault).getD []

/-- The outpoint it stands at. -/
def sampleOp : OutPoint := ⟨List.Vector.replicate 32 0, 0⟩

/-- An unlock of it. -/
def sampleUnlock (lockTime : UInt32) : Transaction where
  header := txHeaderV4
  versionGroupId := saplingVersionGroupId
  vin := [⟨sampleOp, [], sequenceFinal⟩]
  vout := []
  lockTime := lockTime
  expiryHeight := 0
  shielded := .empty

/-- The request to sign an unlock, the set id spelled as given. -/
def sampleUnlockRequest (lockTime : UInt32) (setId : String) : SetSignRequest where
  tx := Hex.encode ((sampleUnlock lockTime).serialize.toOption.getD [])
  branchId := 0
  index := 0
  prevout := ⟨sampleOp.display, Hex.encode sampleScript, 0⟩
  setId := setId
  role := 1
  keys := [.bip32 0 0]
  acknowledgeRestore := false

/-- The seed file of the empty phrase. -/
def sampleSeed : SeedFile := ⟨seedFormat, "regtest", "", none, 0, false⟩

/-- The set id in upper-case digits. -/
def sampleUpper : String := String.ofList (List.replicate 32 ['A', 'B']).flatten

/-- Nothing of the outside matters. -/
def sampleEnv : Env := ⟨0, fun _ ↦ [], fun _ ↦ none⟩

theorem sampleUnlock_parse {l : UInt32} (hl : l = 0 ∨ l = 1) :
    Transaction.parseAt 64 ((sampleUnlock l).serialize.toOption.getD []) = .ok (sampleUnlock l) := by
  rcases hl with rfl | rfl <;> decide +kernel

theorem sampleSet_lower : txidFromHex (txidHex sampleSet) = .ok sampleSet :=
  txidFromHex_txidHex sampleSet

/-- What the request's texts spell. -/
theorem sample_spelled : parseOutPoint sampleOp.display = .ok sampleOp ∧
    txidFromHex sampleUpper = .ok sampleSet ∧ txidHex sampleSet ≠ sampleUpper ∧
      (parseVault sampleScript).map VaultParams.setId = some sampleSet := by
  decide +kernel

/-- What the request signs. -/
def sampleSubject (l : UInt32) : SetSubject :=
  ⟨sampleSet, sampleOp, List.Vector.replicate 32 (109 + l.toUInt8)⟩

theorem sampleUnlock_sighash {l : UInt32} (hl : l = 0 ∨ l = 1) :
    (sampleUnlock l).sighash sampleCrypto 0 sampleScript 0 (sighashAll ||| anyonecanpay) 0 =
      .ok (sampleSubject l).sighash := by
  rcases hl with rfl | rfl <;> decide +kernel

/-- The keys of the empty phrase. -/
def sampleKeys : Option Keyring := (deriveKeys sampleCrypto "").toOption.map Prod.fst

/-- The signer behind a start. -/
def sampleCore : Core where
  network := .regtest
  seedFp := Hex.encode (List.replicate 32 64)
  keys := sampleKeys
  once := .fresh false
  guard := []
  imported := ⟨[], [], none, none⟩
  pqImported := []
  ks := ⟨.regtest, some "", none, 0, false⟩
  unlockedUntil := 0

/-- The directory behind a first start. -/
def sampleDisk : Disk :=
  ⟨some sampleSeed, none, none, none, some (SignOnce.fresh false).toFile, none⟩

theorem sampleOpened {d : Disk} (hd : d ∈ [(World.start sampleSeed).disk, sampleDisk]) :
    openSigner sampleCrypto .regtest .done .done d = (.ok sampleCore, sampleDisk) := by
  revert d
  decide +kernel

theorem sampleChecked {l : UInt32} (hl : l = 0 ∨ l = 1) {id : String}
    (hid : txidFromHex id = .ok sampleSet) :
    Checked sampleCrypto (sampleUnlockRequest l id) (sampleUnlock l) sampleScript
      (sampleSubject l) where
  input := rfl
  outpoint := sample_spelled.1
  decoded := Hex.decode_encode _
  amount := by
    change ¬((0 : Int64) < 0 ∨ (0 : Int64) > maxMoney)
    decide
  set := hid
  template := .inl ⟨rfl, sample_spelled.2.2.2⟩
  transparent := rfl
  sighash := sampleUnlock_sighash hl

/-- The sample signer with other records. -/
def sampleWith (o : SignOnce) : Core := { sampleCore with once := o }

theorem sampleKeys_derive : ∃ k x, sampleKeys = some k ∧
    k.account.derive sampleCrypto [0, 0] = .ok x := by
  have h : (sampleKeys.bind fun k ↦ (k.account.derive sampleCrypto [0, 0]).toOption).isSome := by
    decide +kernel
  obtain ⟨x, hx⟩ := Option.isSome_iff_exists.mp h
  obtain ⟨k, hk, hx⟩ := Option.bind_eq_some_iff.mp hx
  refine ⟨k, x, hk, ?_⟩
  cases hd : k.account.derive sampleCrypto [0, 0] with
  | ok y =>
    rw [hd] at hx
    cases hx
    rfl
  | error e =>
    rw [hd] at hx
    cases hx

/-- The sample request comes down to its sign-once step. -/
theorem sampleSignSet {l : UInt32} (hl : l = 0 ∨ l = 1) {id : String}
    (hid : txidFromHex id = .ok sampleSet) :
    ∃ sk, ∀ o d ws, signSet sampleCrypto (sampleUnlockRequest l id)
        (startSt (sampleWith o) d sampleEnv ws) =
      (signOnce (sampleUnlockRequest l id) (sampleSubject l) [sk] >>= fun _ ↦
        pure ⟨Hex.encode (sampleSubject l).sighash.toList,
          Hex.encode (setMsg sampleCrypto (sampleUnlockRequest l id) (sampleSubject l)).toList,
          [Hex.encode (sampleCrypto.signRecoverable sk
            (setMsg sampleCrypto (sampleUnlockRequest l id) (sampleSubject l))).toList]⟩)
        (startSt (sampleWith o) d sampleEnv ws) := by
  obtain ⟨k, x, hk, hx⟩ := sampleKeys_derive
  refine ⟨x.key, fun o d ws ↦ ?_⟩
  have hparse : parseRequestTx sampleCrypto (sampleUnlockRequest l id).tx
      (startSt (sampleWith o) d sampleEnv ws) = (.ok (sampleUnlock l), _) :=
    parseRequestTx_encode sampleCrypto (sampleUnlock_parse hl) _
  have hsub := setSubject_of_checked sampleCrypto hparse (sampleChecked hl hid)
  have hkeys : keys (startSt (sampleWith o) d sampleEnv ws) = (.ok k, _) :=
    keys_of_clear rfl hk
  have hsec : Proc.forEach
      (memberSecret sampleCrypto "set signatures are made with BIP32 member keys")
      (sampleUnlockRequest l id).keys (startSt (sampleWith o) d sampleEnv ws) = (.ok [x.key], _) :=
    memberSecrets_of_account sampleCrypto _ hkeys (by decide) (by decide) hx
  exact signSet_of_signOnce sampleCrypto hsub hsec

/-- The sample request as an event. -/
def sampleEvent (writes : List WriteOutcome) (l : UInt32) (id : String) : Event :=
  .request sampleEnv writes protoVersion (.signSet (sampleUnlockRequest l id))

/-- What the sample request was signed for. -/
def sampleFact (l : UInt32) : SetFact :=
  ⟨sampleSet, sampleOp, 1, Hex.encode (sampleSubject l).sighash.toList⟩

/-- The record of the sample request. -/
def sampleRecord (l : UInt32) (id : String) : SignedRecord :=
  setRecord (sampleUnlockRequest l id) (sampleSubject l)

theorem setFact_sampleEvent {l : UInt32} {id : String} (hid : txidFromHex id = .ok sampleSet)
    {ws : List WriteOutcome} {σ : SetSigs} (hne : σ.sigs ≠ [])
    (hhash : σ.sighash = Hex.encode (sampleSubject l).sighash.toList) :
    setFact (sampleEvent ws l id, .response (.setSigs σ)) = some (sampleFact l) := by
  have hop : parseOutPoint (sampleUnlockRequest l id).prevout.outpoint = .ok sampleOp :=
    sample_spelled.1
  have hset : txidFromHex (sampleUnlockRequest l id).setId = .ok sampleSet := hid
  simp only [setFact, sampleEvent, hop, hset, if_neg hne, hhash]
  rfl

/-- Without a record under its spelling, the sample request is signed. -/
theorem sampleStep_absent {l : UInt32} (hl : l = 0 ∨ l = 1) {id : String}
    (hid : txidFromHex id = .ok sampleSet) {o : SignOnce} (d : Disk)
    (hnone : o.record? id sampleOp.display = none) (hrest : o.restored = false) :
    ∃ a, World.step sampleCrypto .blank .regtest ⟨some (sampleWith o), d⟩ (sampleEvent [] l id) =
        (a, ⟨some (sampleWith (o.insert (sampleRecord l id))),
          { d with once := some (o.insert (sampleRecord l id)).toFile }⟩) ∧
      setFact (sampleEvent [] l id, a) = some (sampleFact l) := by
  obtain ⟨sk, hsk⟩ := sampleSignSet hl hid
  have hone := (@signOnce_of_absent (sampleUnlockRequest l id) (sampleSubject l)
    (startSt (sampleWith o) d sampleEnv []) [sk]) hnone (by simp) hrest rfl
  have hset := hsk o d []
  rw [Proc.bind_apply, hone] at hset
  exact ⟨_, World.step_signSet hset, setFact_sampleEvent hid (by simp) rfl⟩

/-- A record that could not be saved is in memory alone. -/
theorem sampleStep_failed {l : UInt32} (hl : l = 0 ∨ l = 1) {id : String}
    (hid : txidFromHex id = .ok sampleSet) {o : SignOnce} (d : Disk) (e : String)
    (hnone : o.record? id sampleOp.display = none) (hrest : o.restored = false) :
    ∃ a, World.step sampleCrypto .blank .regtest ⟨some (sampleWith o), d⟩
        (sampleEvent [.failed e 0] l id) =
      (.response (.refused a), ⟨some (sampleWith (o.insert (sampleRecord l id))), d⟩) := by
  obtain ⟨sk, hsk⟩ := sampleSignSet hl hid
  have hone := (@signOnce_of_failed (sampleUnlockRequest l id) (sampleSubject l)
    (startSt (sampleWith o) d sampleEnv [.failed e 0]) [sk] _ _ _) hnone (by simp) hrest
    rfl
  have hset := hsk o d [.failed e 0]
  rw [Proc.bind_apply, hone] at hset
  exact ⟨_, World.step_signSet hset⟩

/-- With its record in memory, the sample request is signed and nothing is written. -/
theorem sampleStep_same {l : UInt32} (hl : l = 0 ∨ l = 1) {id : String}
    (hid : txidFromHex id = .ok sampleSet) {o : SignOnce} (d : Disk)
    (hsome : o.record? id sampleOp.display =
      some (1, Hex.encode (sampleSubject l).sighash.toList)) :
    ∃ a, World.step sampleCrypto .blank .regtest ⟨some (sampleWith o), d⟩ (sampleEvent [] l id) =
        (a, ⟨some (sampleWith o), d⟩) ∧
      setFact (sampleEvent [] l id, a) = some (sampleFact l) := by
  obtain ⟨sk, hsk⟩ := sampleSignSet hl hid
  have hone := signOnce_of_same (r := sampleUnlockRequest l id) (x := sampleSubject l)
    (s := startSt (sampleWith o) d sampleEnv []) hsome [sk]
  have hset := hsk o d []
  rw [Proc.bind_apply, hone] at hset
  exact ⟨_, World.step_signSet hset, setFact_sampleEvent hid (by simp) rfl⟩

/-- The run of some events on the sample directory. -/
def sampleRun (es : List Event) : List (Event × Answer) × World :=
  Trace.run (World.step sampleCrypto .blank .regtest) (World.start sampleSeed) es

theorem sampleStart : World.step sampleCrypto .blank .regtest (World.start sampleSeed)
    (.restart .done .done) =
      (.started (.ok ()), ⟨some (sampleWith (.fresh false)), sampleDisk⟩) := by
  rw [World.step, sampleOpened (by simp)]
  rfl

theorem record?_fresh (id p : String) : (SignOnce.fresh false).record? id p = none := rfl

/-- One outpoint, two unlocks, and the set id in digits of either case. -/
def twoSpellings : List Event :=
  [.restart .done .done, sampleEvent [] 0 (txidHex sampleSet), sampleEvent [] 1 sampleUpper]

theorem not_agree_twoSpellings :
    Trace (World.step sampleCrypto .blank .regtest) (fun _ e ↦ e.Writes) (World.start sampleSeed)
        (sampleRun twoSpellings).1 (sampleRun twoSpellings).2 ∧
      (sampleRun twoSpellings).1.filterMap setFact = [sampleFact 1, sampleFact 0] ∧
      ¬ (sampleFact 0).Agree (sampleFact 1) := by
  refine ⟨Trace.trace_run ⟨trivial, rfl, rfl, trivial⟩, ?_, ?_⟩
  · obtain ⟨a, ha, hfa⟩ := sampleStep_absent (.inl rfl) sampleSet_lower sampleDisk
      (record?_fresh _ _) rfl
    obtain ⟨b, hb, hfb⟩ := sampleStep_absent (l := 1) (.inr rfl) sample_spelled.2.1
      { sampleDisk with once := some ((SignOnce.fresh false).insert
        (sampleRecord 0 (txidHex sampleSet))).toFile }
      (o := (SignOnce.fresh false).insert (sampleRecord 0 (txidHex sampleSet)))
      (by
        rw [record?_insert, if_neg]
        · exact record?_fresh _ _
        · exact fun h ↦ sample_spelled.2.2.1 h.1) rfl
    simp only [sampleRun, Trace.run, twoSpellings, Trace.runFrom, sampleStart, ha, hb,
      List.filterMap_cons, hfa, hfb, List.filterMap_nil]
    rfl
  · intro h
    exact absurd (h rfl rfl).2 (by decide +kernel)

/-- A save that fails, and the same request again. -/
def failedSave : List Event :=
  [.restart .done .done, sampleEvent [.failed "No space left on device" 0] 0 (txidHex sampleSet),
    sampleEvent [] 0 (txidHex sampleSet)]

theorem records_sampleDisk : sampleDisk.records = .fresh false := rfl

theorem not_onFile_failedSave :
    (sampleRun failedSave).1.filterMap setFact = [sampleFact 0] ∧
      ¬ OnFile (sampleRun failedSave).2 (sampleFact 0) := by
  obtain ⟨r, hr⟩ := sampleStep_failed (l := 0) (.inl rfl) sampleSet_lower sampleDisk
    "No space left on device" (record?_fresh _ _) rfl
  obtain ⟨a, ha, hfa⟩ := sampleStep_same (l := 0) (.inl rfl) sampleSet_lower sampleDisk
    (o := (SignOnce.fresh false).insert (sampleRecord 0 (txidHex sampleSet)))
    (by
      rw [record?_insert, if_pos ⟨rfl, rfl⟩]
      rfl)
  have hnone : setFact (sampleEvent [.failed "No space left on device" 0] 0 (txidHex sampleSet),
      .response (.refused r)) = none := rfl
  constructor
  · simp only [sampleRun, Trace.run, failedSave, Trace.runFrom, sampleStart, hr, ha,
      List.filterMap_cons, hfa, hnone, List.filterMap_nil]
    rfl
  · simp only [sampleRun, Trace.run, failedSave, Trace.runFrom, sampleStart, hr, ha]
    rw [OnFile, records_sampleDisk, record?_fresh]
    exact fun h ↦ by cases h

/-- The same request twice. -/
def sameTwice : List Event :=
  [.restart .done .done, sampleEvent [] 0 (txidHex sampleSet), sampleEvent [] 0 (txidHex sampleSet)]

theorem setFacts_agree_sameTwice :
    (sampleRun sameTwice).1.filterMap setFact = [sampleFact 0, sampleFact 0] ∧
      (sampleRun sameTwice).1.Pairwise
        fun y x ↦ ∀ a b, setFact x = some a → setFact y = some b → a.Agree b := by
  obtain ⟨a, ha, hfa⟩ := sampleStep_absent (.inl rfl) sampleSet_lower sampleDisk
    (record?_fresh _ _) rfl
  obtain ⟨b, hb, hfb⟩ := sampleStep_same (l := 0) (.inl rfl) sampleSet_lower
    { sampleDisk with once := some ((SignOnce.fresh false).insert
      (sampleRecord 0 (txidHex sampleSet))).toFile }
    (o := (SignOnce.fresh false).insert (sampleRecord 0 (txidHex sampleSet)))
    (by
      rw [record?_insert, if_pos ⟨rfl, rfl⟩]
      rfl)
  have hfacts : (sampleRun sameTwice).1.filterMap setFact = [sampleFact 0, sampleFact 0] := by
    simp only [sampleRun, Trace.run, sameTwice, Trace.runFrom, sampleStart, ha, hb,
      List.filterMap_cons, hfa, hfb, List.filterMap_nil]
    rfl
  have hspelled : Trace.Guarded (World.step sampleCrypto .blank .regtest) Spelled
      (World.start sampleSeed) sameTwice := by
    simp only [sameTwice, Trace.Guarded, sampleStart, ha, and_true]
    refine ⟨trivial, ⟨rfl, ?_⟩, rfl, ?_⟩
    · intro c set op id v hc _ _ hrec _
      cases hc
      cases hrec
    · intro c set op id v hc _ _ hrec _
      obtain rfl := Option.some.inj hc
      rw [sampleWith, record?_insert] at hrec
      split at hrec
      · rename_i hk
        exact hk.1.symm
      · cases hrec
  exact ⟨hfacts, setFacts_agree sampleCrypto .blank .regtest (Trace.trace_run hspelled)⟩

/-- A save that fails, a restart, and the same request again. -/
def restartBetween : List Event :=
  [.restart .done .done, sampleEvent [.failed "No space left on device" 0] 0 (txidHex sampleSet),
    .restart .done .done, sampleEvent [] 0 (txidHex sampleSet)]

theorem setFacts_onFile_restartBetween :
    (sampleRun restartBetween).1.filterMap setFact = [sampleFact 0] ∧
      OnFile (sampleRun restartBetween).2 (sampleFact 0) := by
  obtain ⟨r, hr⟩ := sampleStep_failed (l := 0) (.inl rfl) sampleSet_lower sampleDisk
    "No space left on device" (record?_fresh _ _) rfl
  obtain ⟨a, ha, hfa⟩ := sampleStep_absent (.inl rfl) sampleSet_lower sampleDisk
    (record?_fresh _ _) rfl
  have hnone : setFact (sampleEvent [.failed "No space left on device" 0] 0 (txidHex sampleSet),
      .response (.refused r)) = none := rfl
  have hre : ∀ c, World.step sampleCrypto .blank .regtest ⟨c, sampleDisk⟩ (.restart .done .done) =
      (.started (.ok ()), ⟨some (sampleWith (.fresh false)), sampleDisk⟩) := by
    intro c
    rw [World.step, sampleOpened (by simp)]
    rfl
  have hfacts : (sampleRun restartBetween).1.filterMap setFact = [sampleFact 0] := by
    simp only [sampleRun, Trace.run, restartBetween, Trace.runFrom, sampleStart, hr, hre, ha,
      List.filterMap_cons, hfa, hnone, List.filterMap_nil]
    rfl
  have hlower : ∀ set, txidFromHex (txidHex sampleSet) = .ok set →
      txidHex sampleSet = txidHex set := by
    intro set h
    rw [sampleSet_lower] at h
    cases h
    rfl
  have hdisk : Trace.Guarded (World.step sampleCrypto .blank .regtest) OnDisk
      (World.start sampleSeed) restartBetween := by
    simp only [restartBetween, Trace.Guarded, sampleStart, hr, hre, and_true]
    refine ⟨trivial, ⟨hlower, ?_⟩, trivial, hlower, ?_⟩
    · intro c op v hc _ hrec
      cases hc
      cases hrec
    · intro c op v hc _ hrec
      cases hc
      cases hrec
  refine ⟨hfacts, ?_⟩
  obtain ⟨x, hx, hfx⟩ := List.mem_filterMap.mp (hfacts ▸ List.mem_singleton.mpr rfl)
  exact (setFacts_onFile sampleCrypto .blank .regtest (Trace.trace_run hdisk)).1 x hx _ hfx

end Yew.Signer
