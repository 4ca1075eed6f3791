import Yew.Signer.Restore

/-!
# Restores over runs

What was signed once stays forbidden in two ways: by its record, or by the marker, under which
nothing new is signed.  A restore with the marker loses records and gains the marker; so over a run
there is a store `U` of everything that was ever recorded, every directory and backup holds part of
it, and where the marker is not set the directory holds all of it.

The log of attestations has no marker: it is the backup's log that counts behind a restore.

The store `U` belongs to the proof and is no part of the machine.
-/

namespace Yew.Signer

open Tx Keys Proto Proc SignOnce

/-! ## The file and memory -/

/-- The file of a directory has a known format and reads as `o`. -/
structure Reads (d : Disk) (o : SignOnce) : Prop where
  file : ∃ f, d.once = some f ∧ f.format = SignOnce.format
  restored : d.records.restored = o.restored
  record : ∀ p q, d.records.record? p q = o.record? p q

theorem reads_toFile (d : Disk) (o : SignOnce) : Reads { d with once := some o.toFile } o :=
  ⟨⟨_, rfl, rfl⟩, rfl, record?_records_toFile o d⟩

/-- While no write fails, the file keeps reading as memory. -/
structure ReadMoves (s s' : St) : Prop where
  reads : s.writes = [] → Reads s.disk s.core.once → Reads s'.disk s'.core.once
  writes : s'.writes <:+ s.writes

instance : Proc.Path ReadMoves where
  refl s := ⟨fun _ h ↦ h, List.suffix_refl _⟩
  trans {a b c} hab hbc := by
    refine ⟨fun hw h ↦ hbc.reads ?_ (hab.reads hw h), hbc.writes.trans hab.writes⟩
    have hsuffix := hab.writes
    rw [hw] at hsuffix
    exact List.suffix_nil.mp hsuffix

theorem ReadMoves.of_same {s s' : St} (hcore : s'.core.once = s.core.once)
    (hdisk : s'.disk.once = s.disk.once) (hw : s'.writes <:+ s.writes) : ReadMoves s s' := by
  have hrec : s'.disk.records = s.disk.records := by simp [Disk.records, hdisk]
  refine ⟨fun _ h ↦ ⟨?_, ?_, ?_⟩, hw⟩
  · rw [hdisk]
    exact h.file
  · rw [hrec, hcore]
    exact h.restored
  · rw [hrec, hcore]
    exact h.record

theorem readMoves_change (f : SignOnce → SignOnce) : Moves ReadMoves (changeOnce f) := by
  intro s
  rw [changeOnce_cases]
  obtain ⟨ws, hws, h | ⟨hne, h⟩⟩ := replaceFile_cases
    (fun d ↦ { d with once := some (f s.core.once).toFile })
    { s with core := { s.core with once := f s.core.once } }
  · rw [h]
    exact ⟨fun _ _ ↦ reads_toFile s.disk (f s.core.once), hws⟩
  · obtain ⟨e, h⟩ | ⟨d, -, h⟩ := h
    · rw [h]
      exact ⟨fun hw ↦ absurd hw hne, hws⟩
    · rw [h]
      exact ⟨fun hw ↦ absurd hw hne, hws⟩

theorem readMoves_core : Moves ReadMoves core := fun s ↦ Proc.Path.refl s

instance : Tame ReadMoves where
  free h := .of_same h.once h.diskOnce h.writes
  keyImported _ _ :=
    .ite (readMoves_core.bind fun _ ↦ .ite (.pure _) (readMoves_change _)) <|
      readMoves_core.bind fun _ ↦ .ite (.pure _) (readMoves_change _)
  joinsSeen _ := readMoves_core.bind fun _ ↦ .ite (.pure _) (readMoves_change _)

theorem readMoves_importOnce (rs : List SignedRecord) : Moves ReadMoves (importOnce rs) := by
  refine readMoves_core.bind fun c ↦ ?_
  cases c.once.importCounts rs with
  | error e => exact .pure _
  | ok n =>
    refine (readMoves_change _).bind fun x ↦ ?_
    cases x with
    | error e => exact .pure _
    | ok => exact .pure _

theorem readMoves_recordGuard (r : Attested) : Moves ReadMoves (recordGuard r) := by
  intro s
  obtain ⟨w, ws, hws, -, hstate, -⟩ := recordGuard_cases r s
  rw [hstate]
  exact .of_same rfl rfl hws

section

variable (C : Crypto) (L : Sapling.Lib)

theorem readMoves_handle (version : UInt32) (r : Request) :
    Moves ReadMoves (handle C L version r) :=
  moves_handle C L version r
    (fun x _ ↦ ends_signSet C (R := fun _ ↦ ReadMoves)
      (ends_signOnce (R := fun _ ↦ ReadMoves) (fun _ ↦ readMoves_change _) x))
    (fun x _ ↦ ends_signAttestation C (R := fun _ ↦ ReadMoves)
      (ends_guardedAttestation C readMoves_recordGuard) x)
    (fun x _ ↦ ends_cancelCosign C (R := fun _ ↦ ReadMoves)
      (ends_guardedAttestation C readMoves_recordGuard) x)
    (fun _ ↦ readMoves_change _) fun _ ↦ readMoves_importOnce

/-! ## The marker -/

/-- Memory keeps its records, and under the marker, which stays, it gets no new one. -/
structure MarkMoves (s s' : St) : Prop where
  keeps : Keeps s.core.once s'.core.once
  marked : s.core.once.restored = true →
    s'.core.once.restored = true ∧ Keeps s'.core.once s.core.once

instance : Proc.Path MarkMoves where
  refl _ := ⟨.refl _, fun h ↦ ⟨h, .refl _⟩⟩
  trans hab hbc := by
    refine ⟨hab.keeps.trans hbc.keeps, fun h ↦ ?_⟩
    obtain ⟨hb, hba⟩ := hab.marked h
    obtain ⟨hc, hcb⟩ := hbc.marked hb
    exact ⟨hc, hcb.trans hba⟩

theorem MarkMoves.of_same {s s' : St} (h : s'.core.once = s.core.once) : MarkMoves s s' := by
  refine ⟨?_, ?_⟩
  · rw [h]
    exact .refl _
  · rw [h]
    exact fun hm ↦ ⟨hm, .refl _⟩

theorem once_changeOnce (f : SignOnce → SignOnce) (s : St) :
    (changeOnce f s).2.core.once = f s.core.once := by
  rw [changeOnce_cases]
  obtain ⟨ws, -, h | ⟨-, ⟨e, h⟩ | ⟨d, -, h⟩⟩⟩ := replaceFile_cases
    (fun d ↦ { d with once := some (f s.core.once).toFile })
    { s with core := { s.core with once := f s.core.once } }
  · rw [h]
  · rw [h]
  · rw [h]

/-- A change that leaves the records alone and does not clear the marker. -/
theorem markMoves_change {f : SignOnce → SignOnce} (hrec : ∀ o, (f o).records = o.records)
    (hmark : ∀ o, o.restored = true → (f o).restored = true) :
    Moves MarkMoves (changeOnce f) := by
  intro s
  have heq (p q : String) : (f s.core.once).record? p q = s.core.once.record? p q := by
    rw [record?, hrec, record?]
  refine ⟨?_, fun h ↦ ⟨?_, ?_⟩⟩
  · intro p q v hv
    rwa [once_changeOnce, heq]
  · rw [once_changeOnce]
    exact hmark _ h
  · intro p q v hv
    rwa [once_changeOnce, heq] at hv

theorem markMoves_core : Moves MarkMoves core := fun s ↦ Proc.Path.refl s

theorem markMoves_markRestored : Moves MarkMoves markRestored :=
  markMoves_core.bind fun _ ↦ .ite (.pure _) (markMoves_change (fun _ ↦ rfl) fun _ _ ↦ rfl)

instance : Tame MarkMoves where
  free h := .of_same h.once
  keyImported _ _ :=
    .ite (markMoves_core.bind fun _ ↦ .ite (.pure _) (markMoves_change (fun _ ↦ rfl) fun _ h ↦ h))
      markMoves_markRestored
  joinsSeen _ :=
    markMoves_core.bind fun _ ↦ .ite (.pure _) (markMoves_change (fun _ ↦ rfl) fun _ _ ↦ rfl)

theorem markMoves_recordGuard (r : Attested) : Moves MarkMoves (recordGuard r) := by
  intro s
  obtain ⟨w, ws, -, -, hstate, -⟩ := recordGuard_cases r s
  rw [hstate]
  exact .of_same rfl

/-- Without an acknowledgement, a signature that has no record is refused under the marker. -/
theorem markMoves_signOnce {r : SetSignRequest} (hr : r.acknowledgeRestore = false)
    (x : SetSubject) (secrets : List SecretKey) : Moves MarkMoves (signOnce r x secrets) := by
  intro s
  rcases signOnce_cases r x secrets s with h | ⟨hnone, hrest, h⟩
  · rw [h]
    exact Proc.Path.refl s
  · rw [h]
    refine Moves.bind_at ?_ fun _ ↦ moves_orRefuse _ _ _
    have hunmarked : ¬ s.core.once.restored = true := fun hm ↦ hrest ⟨hm, by simp [hr]⟩
    refine ⟨?_, fun hm ↦ absurd hm hunmarked⟩
    rw [recordOnce, once_changeOnce]
    exact keeps_insert (.inl hnone)

/-- A request that neither acknowledges the restore nor brings records. -/
def Unacknowledged : Request → Prop
  | .signSet r => r.acknowledgeRestore = false
  | .acknowledgeRestore => False
  | r => ¬ BringsRecords r

theorem markMoves_handle (version : UInt32) {r : Request} (hr : Unacknowledged r) :
    Moves MarkMoves (handle C L version r) := by
  refine moves_handle C L version r ?_ ?_ ?_ ?_ ?_
  · rintro x rfl
    exact ends_signSet C (R := fun _ ↦ MarkMoves) (markMoves_signOnce hr)
  · exact fun x _ ↦ ends_signAttestation C (R := fun _ ↦ MarkMoves)
      (ends_guardedAttestation C markMoves_recordGuard) x
  · exact fun x _ ↦ ends_cancelCosign C (R := fun _ ↦ MarkMoves)
      (ends_guardedAttestation C markMoves_recordGuard) x
  · rintro rfl
    exact hr.elim
  · intro hbrings
    cases r with
    | importSigned rs => exact absurd hbrings hr
    | importDump x => exact absurd hbrings hr
    | _ => exact hbrings.elim

/-! ## Starts -/

/-- The file of a directory, if it has one, has a known format. -/
def Disk.Formatted (d : Disk) : Prop := ∀ f, d.once = some f → f.format = SignOnce.format

theorem Reads.formatted {d : Disk} {o : SignOnce} (h : Reads d o) : d.Formatted := by
  obtain ⟨f, hf, hformat⟩ := h.file
  intro g hg
  rw [hf] at hg
  cases hg
  exact hformat

theorem load_formatted {d : Disk} (h : d.Formatted) (restored : Bool) (w : WriteOutcome) :
    (SignOnce.load restored w d).2.Formatted ∧
      ∀ o, (SignOnce.load restored w d).1 = .ok o → Reads (SignOnce.load restored w d).2 o := by
  cases hd : d.once with
  | some f =>
    have hload : SignOnce.load restored w d = (.ok (ofFile f), d) := by
      simp [SignOnce.load, hd, h f hd]
    have hrec : d.records = ofFile f := by simp [Disk.records, hd]
    rw [hload]
    refine ⟨h, fun o ho ↦ ?_⟩
    cases ho
    exact ⟨⟨f, hd, h f hd⟩, by rw [hrec], fun p q ↦ by rw [hrec]⟩
  | none =>
    have hsaved := reads_toFile d (fresh restored)
    cases w with
    | done =>
      simp only [SignOnce.load, hd]
      refine ⟨hsaved.formatted, fun o ho ↦ ?_⟩
      cases ho
      exact hsaved
    | failed e kept =>
      simp only [SignOnce.load, hd]
      exact ⟨h, fun o ho ↦ by cases ho⟩
    | cut kept =>
      simp only [SignOnce.load, hd]
      refine ⟨?_, fun o ho ↦ by cases ho⟩
      split
      · exact h
      · exact hsaved.formatted

theorem load_same (restored : Bool) (w : WriteOutcome) (d : Disk) :
    (∀ p q, (SignOnce.load restored w d).2.records.record? p q = d.records.record? p q) ∧
      (d.records.restored = true → (SignOnce.load restored w d).2.records.restored = true) := by
  cases hd : d.once with
  | some f =>
    have hload : (SignOnce.load restored w d).2 = d := by
      simp only [SignOnce.load, hd]
      split <;> rfl
    rw [hload]
    exact ⟨fun p q ↦ rfl, fun h ↦ h⟩
  | none =>
    have hrec : d.records = fresh false := by simp [Disk.records, hd]
    refine ⟨fun p q ↦ ?_, fun h ↦ ?_⟩
    · have hload : (SignOnce.load restored w d).2 = d ∨
          (SignOnce.load restored w d).2 = { d with once := some (fresh restored).toFile } := by
        cases w with
        | done => exact .inr (by simp [SignOnce.load, hd])
        | failed e kept => exact .inl (by simp [SignOnce.load, hd])
        | cut kept =>
          simp only [SignOnce.load, hd]
          split
          · exact .inl rfl
          · exact .inr rfl
      rcases hload with h | h
      · rw [h]
      · rw [h, record?_records_toFile, hrec]
        rfl
    · rw [hrec] at h
      cases h

/-- A start leaves the records of the directory as they are, and the marker if it is set. -/
theorem openSigner_same (network : Network) (w₁ w₂ : WriteOutcome) (d : Disk) :
    (∀ p q, (openSigner C network w₁ w₂ d).2.records.record? p q = d.records.record? p q) ∧
      (d.records.restored = true → (openSigner C network w₁ w₂ d).2.records.restored = true) := by
  have hguard : ∀ d, (loadGuard w₂ d).2.records = d.records := fun _ ↦ rfl
  rcases openSigner_disk C network w₁ w₂ d with heq | ⟨restored, heq | heq⟩
  · rw [heq]
    exact ⟨fun p q ↦ rfl, fun h ↦ h⟩
  · rw [heq]
    exact load_same restored w₁ d
  · rw [heq, hguard]
    exact load_same restored w₁ d

/-- A start leaves the file readable, and has it in memory. -/
theorem openSigner_reads {d : Disk} (h : d.Formatted) (network : Network) (w₁ w₂ : WriteOutcome) :
    (openSigner C network w₁ w₂ d).2.Formatted ∧
      ∀ c, (openSigner C network w₁ w₂ d).1 = .ok c →
        Reads (openSigner C network w₁ w₂ d).2 c.once := by
  have hguard : ∀ d, (loadGuard w₂ d).2.once = d.once := fun _ ↦ rfl
  constructor
  · rcases openSigner_disk C network w₁ w₂ d with heq | ⟨restored, heq | heq⟩
    · rw [heq]
      exact h
    · rw [heq]
      exact (load_formatted h restored w₁).1
    · rw [heq]
      exact (load_formatted h restored w₁).1
  · intro c hc
    have ho := openSigner_eq_ok C (Prod.ext hc rfl)
    have hreads := (load_formatted h c.ks.restored w₁).2 c.once ho.once
    have honce := hguard (SignOnce.load c.ks.restored w₁ d).2
    rw [ho.guard] at honce
    dsimp only at honce
    have hrec : (openSigner C network w₁ w₂ d).2.records =
        (SignOnce.load c.ks.restored w₁ d).2.records := by
      rw [Disk.records, honce, Disk.records]
    refine ⟨?_, ?_, ?_⟩
    · rw [honce]
      exact hreads.file
    · rw [hrec]
      exact hreads.restored
    · rw [hrec]
      exact hreads.record

/-- The process, if one runs, has read the file. -/
structure World.Read (w : World) : Prop where
  file : w.disk.Formatted
  core : ∀ c, w.core = some c → Reads w.disk c.once

variable (network : Network)

theorem World.read_step {w : World} (hw : w.Read) {e : Event} (he : e.Writes) :
    (w.step C L network e).2.Read := by
  cases e with
  | request env writes version r =>
    cases hc : w.core with
    | none =>
      have hstep : (w.step C L network (.request env writes version r)).2 = w := by
        simp [World.step, hc]
      rw [hstep]
      exact hw
    | some c =>
      have hreads := (readMoves_handle C L version r (startSt c w.disk env writes)).reads he
        (hw.core c hc)
      simp only [World.step, hc]
      refine ⟨hreads.formatted, fun c' hc' ↦ ?_⟩
      rw [eq_of_survives hc']
      exact hreads
  | restart w₁ w₂ =>
    obtain ⟨hfile, hcore⟩ := openSigner_reads C hw.file network w₁ w₂
    refine ⟨hfile, fun c hc ↦ ?_⟩
    cases hx : (openSigner C network w₁ w₂ w.disk).1 with
    | error e => simp [World.step, hx, Except.toOption] at hc
    | ok c' =>
      simp only [World.step, hx, Except.toOption, Option.some.injEq] at hc
      subst hc
      exact hcore c' hx

/-! ## Restores -/

/-- Where every write is done, the directory has the backup's files, and with `salvage` the marker
beside its records. -/
theorem restore_done {b : Disk} (hb : b.Formatted) (salvage : Bool) (d : Disk) :
    ∃ f, restore b salvage [] d = (.ok (), { b with once := f }) ∧
      Disk.Formatted { b with once := f } ∧
      (Disk.records { b with once := f }).restored = (salvage || b.records.restored) ∧
      ∀ p q, (Disk.records { b with once := f }).record? p q = b.records.record? p q := by
  have hfiles : restoreFiles (backupFiles b) [] d = (.ok [], b) := rfl
  cases salvage with
  | false => exact ⟨b.once, by simp [restore, hfiles], hb, rfl, fun p q ↦ rfl⟩
  | true =>
    cases hd : b.once with
    | some f =>
      have hload : SignOnce.load false .done b = (.ok (ofFile f), b) := by
        simp [SignOnce.load, hd, hb f hd]
      have hrec : b.records = ofFile f := by simp [Disk.records, hd]
      by_cases hm : (ofFile f).restored = true
      · refine ⟨b.once, ?_, hb, ?_, fun p q ↦ rfl⟩
        · simp [restore, hfiles, hload, markDisk, hm]
        · rw [Bool.true_or, ← hm, ← hrec]
      · refine ⟨some { ofFile f with restored := true }.toFile, ?_, (reads_toFile b _).formatted,
          rfl, fun p q ↦ ?_⟩
        · simp [restore, hfiles, hload, markDisk, hm]
        · rw [record?_records_toFile, hrec]
          rfl
    | none =>
      have hload : SignOnce.load false .done b =
          (.ok (fresh false), { b with once := some (fresh false).toFile }) := by
        simp [SignOnce.load, hd]
      refine ⟨some { fresh false with restored := true }.toFile, ?_,
        (reads_toFile b _).formatted, rfl, fun p q ↦ ?_⟩
      · simp [restore, hfiles, hload, markDisk, fresh]
      · rw [record?_records_toFile, Disk.records, hd]
        rfl

/-! ## Shelves -/

/-- No write fails. -/
def ShelfEvent.Clean : ShelfEvent → Prop
  | .signer e => e.Writes
  | .restore _ _ ws => ws = []

theorem Event.Writes.untorn {e : Event} (h : e.Writes) : e.Untorn := by
  cases e with
  | request env writes version r =>
    obtain rfl : writes = [] := h
    cases r with
    | signAttestation r => exact fun w hw ↦ nomatch hw
    | cancelCosign r => exact fun w hw ↦ nomatch hw
    | _ => trivial
  | restart => trivial

/-- The log of a directory is whole lines. -/
def Disk.Lined (d : Disk) : Prop := d.guard.getD [] = d.log.flatMap Attested.line

theorem backupOf_eq {d : Disk} (h : d.Lined) : backupOf d = d := by
  have hguard : (d.guard.filter fun b ↦ (Text.fromUtf8 b).isSome) = d.guard := by
    cases hd : d.guard with
    | none => rfl
    | some b =>
      have hb : b = Text.utf8 (Guard.wholeText d.log) := by
        rw [Guard.utf8_wholeText, ← h, hd]
        rfl
      rw [hb, Option.filter_some, Text.fromUtf8_utf8]
      rfl
  rw [backupOf, hguard]

/-- Every directory of a shelf can be opened, and the process goes with its own. -/
structure Shelf.Sound (s : Shelf) : Prop where
  read : s.world.Read
  logged : s.world.Logged
  backups : ∀ b ∈ s.backups, b.Formatted ∧ b.Lined

theorem Shelf.sound_start (seed : SeedFile) : (Shelf.start seed).Sound where
  read := by
    constructor
    · intro f hf
      cases hf
    · intro c hc
      cases hc
  logged := by
    refine ⟨rfl, ?_⟩
    intro c hc
    cases hc
  backups _ h := nomatch h

theorem Shelf.sound_step {s : Shelf} (hs : s.Sound) {e : ShelfEvent} (he : e.Clean) :
    (s.step C L network e).2.Sound := by
  cases e with
  | signer e =>
    refine ⟨World.read_step C L network hs.read he,
      (World.logged_step C L network hs.logged he.untorn).1, ?_⟩
    simp only [Shelf.step]
    split
    · rw [backupOf_eq hs.logged.lines]
      exact List.forall_mem_cons.mpr ⟨⟨hs.read.file, hs.logged.lines⟩, hs.backups⟩
    · exact hs.backups
  | restore i salvage ws =>
    obtain rfl : ws = [] := he
    cases hi : s.backups[i]? with
    | none =>
      simp only [Shelf.step, hi]
      exact hs
    | some b =>
      obtain ⟨hformat, hlines⟩ := hs.backups b (List.mem_of_getElem? hi)
      obtain ⟨f, hf, hformat', -⟩ := restore_done hformat salvage s.world.disk
      simp only [Shelf.step, hi, hf]
      exact ⟨⟨hformat', fun _ h ↦ nomatch h⟩, ⟨hlines, fun _ h ↦ nomatch h⟩, hs.backups⟩

/-- Behind a restore and a start the signer has the backup's records, and with `salvage` the
marker. -/
theorem restored_restart {s : Shelf} (hs : s.Sound) {i : Nat} {b : Disk}
    (hb : s.backups[i]? = some b) (salvage : Bool) (w₁ w₂ : WriteOutcome) {c : Core}
    (hc : (((s.step C L network (.restore i salvage [])).2).step C L network
      (.signer (.restart w₁ w₂))).2.world.core = some c) :
    (salvage = true → c.once.restored = true) ∧
      (∀ p q, c.once.record? p q = b.records.record? p q) ∧ c.guard = b.log := by
  obtain ⟨hformat, hlines⟩ := hs.backups b (List.mem_of_getElem? hb)
  obtain ⟨f, hf, hformat', hmark, hrec⟩ := restore_done hformat salvage s.world.disk
  simp only [Shelf.step, hb, hf, World.step] at hc
  cases hx : (openSigner C network w₁ w₂ { b with once := f }).1 with
  | error e => simp [hx, Except.toOption] at hc
  | ok c' =>
    simp only [hx, Except.toOption, Option.some.injEq] at hc
    subst hc
    obtain ⟨hsame, hmarked⟩ := openSigner_same C network w₁ w₂ { b with once := f }
    have hreads := (openSigner_reads C hformat' network w₁ w₂).2 c' hx
    refine ⟨?_, ?_, ?_⟩
    · rintro rfl
      rw [← hreads.restored]
      exact hmarked hmark
    · intro p q
      rw [← hreads.record, hsame, hrec]
    · have hlog : (Disk.guard { b with once := f }).getD [] = b.log.flatMap Attested.line := hlines
      exact (openSigner_log C network w₁ w₂ hlog).2 c' hx

/-! ## What a directory forgets -/

/-- A directory keeps its records, and under the marker, which stays, it gets no new one. -/
structure Disk.Marks (d d' : Disk) : Prop where
  keeps : Keeps d.records d'.records
  marked : d.records.restored = true → d'.records.restored = true ∧ Keeps d'.records d.records

theorem World.marks_step {w : World} (hw : w.Read) {e : Event} (he : e.Writes)
    (hr : ∀ env writes version r, e = .request env writes version r → Unacknowledged r) :
    w.disk.Marks (w.step C L network e).2.disk := by
  cases e with
  | request env writes version r =>
    cases hc : w.core with
    | none =>
      have hstep : (w.step C L network (.request env writes version r)).2 = w := by
        simp [World.step, hc]
      rw [hstep]
      exact ⟨.refl _, fun h ↦ ⟨h, .refl _⟩⟩
    | some c =>
      have hreads := hw.core c hc
      have hreads' := (readMoves_handle C L version r (startSt c w.disk env writes)).reads he hreads
      have hmarks := markMoves_handle C L version (hr env writes version r rfl)
        (startSt c w.disk env writes)
      simp only [World.step, hc]
      refine ⟨fun p q v hv ↦ ?_, fun hm ↦ ?_⟩
      · rw [hreads'.record]
        exact hmarks.keeps p q v (hreads.record p q ▸ hv)
      · rw [hreads.restored] at hm
        obtain ⟨hm', hback⟩ := hmarks.marked hm
        refine ⟨hreads'.restored.trans hm', fun p q v hv ↦ ?_⟩
        rw [hreads.record]
        exact hback p q v (hreads'.record p q ▸ hv)
  | restart w₁ w₂ =>
    obtain ⟨hsame, hmarked⟩ := openSigner_same C network w₁ w₂ w.disk
    refine ⟨fun p q v hv ↦ ?_, fun hm ↦ ⟨hmarked hm, fun p q v hv ↦ ?_⟩⟩
    · exact (hsame p q).trans hv
    · exact (hsame p q).symm.trans hv

/-! ## Set signatures over runs -/

/-- The directory `b` has the records of `d`, and its marker if it is set. -/
structure Disk.Within (d b : Disk) : Prop where
  keeps : Keeps d.records b.records
  marked : d.records.restored = true → b.records.restored = true

/-- A request that spells its set id, if it has one, in lower-case digits. -/
def LowerSet : Request → Prop
  | .signSet r => ∀ set, txidFromHex r.setId = .ok set → r.setId = txidHex set
  | _ => True

/-- No write fails, a request neither acknowledges a restore nor brings records and has its set id
in lower-case digits, and a restore sets the marker or loses no record. -/
def Mindful (s : Shelf) : ShelfEvent → Prop
  | .signer (.request _ writes _ r) => writes = [] ∧ Unacknowledged r ∧ LowerSet r
  | .signer (.restart _ _) => True
  | .restore i salvage ws => ws = [] ∧
      ∀ b, s.backups[i]? = some b → salvage = true ∨ s.world.disk.Within b

theorem Mindful.clean {s : Shelf} {e : ShelfEvent} (h : Mindful s e) : e.Clean := by
  cases e with
  | signer e =>
    cases e with
    | request env writes version r => exact h.1
    | restart w₁ w₂ => trivial
  | restore i salvage ws => exact h.1

/-- The store `U` has every record that was ever made, and so has the directory where the marker is
not set. -/
structure Remembers (U : SignOnce) (h : List (ShelfEvent × ShelfAnswer)) (s : Shelf) : Prop where
  kept : ∀ b ∈ s.world.disk :: s.backups, Keeps b.records U
  full : s.world.disk.records.restored = false → Keeps U s.world.disk.records
  facts : ∀ x ∈ h, ∀ a, shelfSetFact x = some a →
    U.record? (txidHex a.set) a.prevout.display = some (a.role, a.sighash)

/-- A directory moves on: under the marker the store is the same, without it the store is what the
directory has now. -/
theorem Disk.Marks.store {d d' : Disk} (h : d.Marks d') {U : SignOnce} (hkept : Keeps d.records U)
    (hfull : d.records.restored = false → Keeps U d.records) :
    ∃ U', Keeps U U' ∧ Keeps d'.records U' ∧
      (d'.records.restored = false → Keeps U' d'.records) := by
  cases hm : d.records.restored with
  | true =>
    obtain ⟨hm', hback⟩ := h.marked hm
    refine ⟨U, .refl _, hback.trans hkept, fun hunmarked ↦ ?_⟩
    rw [hm'] at hunmarked
    cases hunmarked
  | false => exact ⟨d'.records, (hfull hm).trans h.keeps, .refl _, fun _ ↦ .refl _⟩

/-- A set signature that was returned has its record in the directory. -/
theorem onFile_step {w : World} (hw : w.Read) {e : Event} (he : e.Writes)
    (hlower : ∀ env writes version r, e = .request env writes version r → LowerSet r) {b : SetFact}
    (hfact : setFact (e, (w.step C L network e).1) = some b) :
    OnFile (w.step C L network e).2 b := by
  have hread := World.read_step C L network hw he
  obtain ⟨env, writes, version, r, c, c', rfl, hc, hc', hset, hop, -, hcase⟩ :=
    setFact_step C L network hfact
  have hid : r.setId = txidHex b.set := hlower env writes version _ rfl b.set hset
  rw [OnFile, (hread.core c' hc').record, ← hid]
  rcases hcase with ⟨hrec, heq, -⟩ | ⟨-, hrec, -⟩
  · rw [heq]
    exact hrec
  · exact hrec

theorem remembers_signer {U : SignOnce} {h : List (ShelfEvent × ShelfAnswer)} {s : Shelf}
    (hs : s.Sound) (hU : Remembers U h s) {e : Event} (he : Mindful s (.signer e)) :
    ∃ U', Remembers U' ((.signer e, (s.step C L network (.signer e)).1) :: h)
      (s.step C L network (.signer e)).2 := by
  have hrequest : ∀ env writes version r, e = .request env writes version r →
      Unacknowledged r ∧ LowerSet r := by
    rintro env writes version r rfl
    exact he.2
  have hmarks := World.marks_step C L network hs.read he.clean
    fun env writes version r h ↦ (hrequest env writes version r h).1
  obtain ⟨hdisk, hbackups⟩ := List.forall_mem_cons.mp hU.kept
  obtain ⟨U', hUU', hdisk', hfull'⟩ := hmarks.store hdisk hU.full
  refine ⟨U', ⟨List.forall_mem_cons.mpr ⟨hdisk', ?_⟩, hfull', List.forall_mem_cons.mpr ⟨?_, ?_⟩⟩⟩
  · have hold : ∀ b ∈ s.backups, Keeps b.records U' := fun b hb ↦ (hbackups b hb).trans hUU'
    simp only [Shelf.step]
    split
    · rw [backupOf_eq hs.logged.lines]
      exact List.forall_mem_cons.mpr ⟨hdisk.trans hUU', hold⟩
    · exact hold
  · intro a ha
    have hfile := onFile_step C L network hs.read he.clean
      (fun env writes version r h ↦ (hrequest env writes version r h).2) ha
    exact hdisk' _ _ _ hfile
  · intro x hx a ha
    exact hUU' _ _ _ (hU.facts x hx a ha)

theorem remembers_restore {U : SignOnce} {h : List (ShelfEvent × ShelfAnswer)} {s : Shelf}
    (hs : s.Sound) (hU : Remembers U h s) {i : Nat} {salvage : Bool} {ws : List WriteOutcome}
    (he : Mindful s (.restore i salvage ws)) :
    Remembers U ((.restore i salvage ws, (s.step C L network (.restore i salvage ws)).1) :: h)
      (s.step C L network (.restore i salvage ws)).2 := by
  obtain ⟨rfl, hwithin⟩ := he
  have hfacts : ∀ x ∈ (ShelfEvent.restore i salvage [],
      (s.step C L network (.restore i salvage [])).1) :: h, ∀ a, shelfSetFact x = some a →
      U.record? (txidHex a.set) a.prevout.display = some (a.role, a.sighash) := by
    refine List.forall_mem_cons.mpr ⟨fun a ha ↦ ?_, hU.facts⟩
    cases ha
  cases hi : s.backups[i]? with
  | none =>
    have hstep : (s.step C L network (.restore i salvage [])).2 = s := by simp [Shelf.step, hi]
    rw [hstep]
    exact ⟨hU.kept, hU.full, hfacts⟩
  | some b =>
    have hb := List.mem_of_getElem? hi
    obtain ⟨f, hf, -, hmark, hrec⟩ := restore_done (hs.backups b hb).1 salvage s.world.disk
    have hstep : (s.step C L network (.restore i salvage [])).2 =
        ⟨⟨none, { b with once := f }⟩, s.backups⟩ := by simp [Shelf.step, hi, hf]
    obtain ⟨hdisk, hbackups⟩ := List.forall_mem_cons.mp hU.kept
    rw [hstep]
    refine ⟨List.forall_mem_cons.mpr ⟨fun p q v hv ↦ ?_, hbackups⟩, fun hunmarked ↦ ?_, hfacts⟩
    · exact hbackups b hb p q v ((hrec p q).symm.trans hv)
    · -- the marker is not set, so the backup has what the directory had, and that was all
      rw [hmark, Bool.or_eq_false_iff] at hunmarked
      rcases hwithin b hi with h | h
      · rw [h] at hunmarked
        cases hunmarked.1
      · have hfull : s.world.disk.records.restored = false := by
          by_contra hne
          have := h.marked (Bool.eq_true_of_not_eq_false hne)
          rw [hunmarked.2] at this
          cases this
        intro p q v hv
        rw [hrec]
        exact h.keeps p q v (hU.full hfull p q v hv)

/-- However often the signer is restored: over a mindful run any two set signatures agree. -/
theorem shelfSetFacts_agree {seed : SeedFile} {h : List (ShelfEvent × ShelfAnswer)} {s : Shelf}
    (t : Trace (Shelf.step C L network) Mindful (Shelf.start seed) h s) :
    ∀ x ∈ h, ∀ y ∈ h, ∀ a b, shelfSetFact x = some a → shelfSetFact y = some b → a.Agree b := by
  have hinv : s.Sound ∧ ∃ U, Remembers U h s := by
    refine (@Trace.invariant _ _ _ _ _ _ _ _ (fun h s ↦ s.Sound ∧ ∃ U, Remembers U h s) t) ?_ ?_
    · refine ⟨Shelf.sound_start seed, .fresh false, ?_, fun _ ↦ .refl _, by simp⟩
      intro b hb
      obtain rfl := List.mem_singleton.mp hb
      exact .refl _
    · rintro h s e ⟨hs, U, hU⟩ he
      refine ⟨Shelf.sound_step C L network hs he.clean, ?_⟩
      cases e with
      | signer e => exact remembers_signer C L network hs hU he
      | restore i salvage ws => exact ⟨U, remembers_restore C L network hs hU he⟩
  obtain ⟨-, U, hU⟩ := hinv
  intro x hx y hy a b ha hb hset hprevout
  have hrec := hU.facts x hx a ha
  rw [hset, hprevout, hU.facts y hy b hb] at hrec
  obtain ⟨hrole, hhash⟩ := Prod.mk.inj (Option.some.inj hrec)
  exact ⟨hrole.symm, hhash.symm⟩

/-! ## Prices over runs -/

/-- No write fails, a request that states a price is plain, and a restore keeps the log. -/
def Logging (s : Shelf) : ShelfEvent → Prop
  | .signer e => e.Writes ∧ PlainPrice s.world e
  | .restore i _ ws => ws = [] ∧ ∀ b, s.backups[i]? = some b → s.world.disk.log ⊆ b.log

theorem Logging.clean {s : Shelf} {e : ShelfEvent} (h : Logging s e) : e.Clean := by
  cases e with
  | signer e => exact h.1
  | restore i salvage ws => exact h.1

theorem shelfPriceFacts_agree {seed : SeedFile} {h : List (ShelfEvent × ShelfAnswer)} {s : Shelf}
    (t : Trace (Shelf.step C L network) Logging (Shelf.start seed) h s) :
    h.Pairwise fun y x ↦ ∀ a b, shelfPriceFact x = some a → shelfPriceFact y = some b →
      a.Agree b := by
  refine ((@Trace.held_and_agree _ _ _ _ _ _ _ _ _ Shelf.Sound _ (fun s ↦ HeldPrice s.world) _ t)
    (Shelf.sound_start seed) ?_ ?_ ?_).2
  · intro s e hs he
    exact Shelf.sound_step C L network hs he.clean
  · rintro s e a hs he ⟨r, hr, hra⟩
    cases e with
    | signer e =>
      exact ⟨r, (World.logged_step C L network hs.logged he.2.untorn).2.subset hr, hra⟩
    | restore i salvage ws =>
      obtain ⟨rfl, hlog⟩ := he
      cases hi : s.backups[i]? with
      | none =>
        have hstep : (s.step C L network (.restore i salvage [])).2 = s := by
          simp [Shelf.step, hi]
        rw [hstep]
        exact ⟨r, hr, hra⟩
      | some b =>
        have hb := (hs.backups b (List.mem_of_getElem? hi)).1
        obtain ⟨f, hf, -⟩ := restore_done hb salvage s.world.disk
        have hstep : (s.step C L network (.restore i salvage [])).2 =
            ⟨⟨none, { b with once := f }⟩, s.backups⟩ := by simp [Shelf.step, hi, hf]
        rw [hstep]
        exact ⟨r, hlog b hi hr, hra⟩
  · intro s e b hs he hfact
    cases e with
    | signer e => exact heldPrice_step C L network hs.logged he.2 hfact
    | restore i salvage ws => cases hfact

/-- **What a restore leaves.**  Behind a restore and a restart the signer holds the records and the
attestations of the backup, and with `salvage` the marker.  Over every run in which a restore sets
the marker or loses no record, and nothing is acknowledged, no two set signatures conflict; over
every run in which restores keep the log, no two prices do. -/
theorem restore_remembers :
    (∀ seed h s, Trace (Shelf.step C L network) (fun _ e ↦ e.Clean) (Shelf.start seed) h s →
      ∀ i b salvage w₁ w₂ c, s.backups[i]? = some b →
        (((s.step C L network (.restore i salvage [])).2).step C L network
          (.signer (.restart w₁ w₂))).2.world.core = some c →
        (salvage = true → c.once.restored = true) ∧
          (∀ p q, c.once.record? p q = b.records.record? p q) ∧ c.guard = b.log) ∧
      (∀ seed h s, Trace (Shelf.step C L network) Mindful (Shelf.start seed) h s →
        ∀ x ∈ h, ∀ y ∈ h, ∀ a b, shelfSetFact x = some a → shelfSetFact y = some b →
          a.Agree b) ∧
      ∀ seed h s, Trace (Shelf.step C L network) Logging (Shelf.start seed) h s →
        h.Pairwise fun y x ↦ ∀ a b, shelfPriceFact x = some a → shelfPriceFact y = some b →
          a.Agree b := by
  refine ⟨?_, ?_, ?_⟩
  · intro seed h s t i b salvage w₁ w₂ c hb hc
    have hs : s.Sound := (@Trace.invariant _ _ _ _ _ _ _ _ (fun _ s ↦ s.Sound) t)
      (Shelf.sound_start seed) fun _ _ _ hs he ↦ Shelf.sound_step C L network hs he
    exact restored_restart C L network hs hb salvage w₁ w₂ hc
  · intro seed h s t
    exact shelfSetFacts_agree C L network t
  · intro seed h s t
    exact shelfPriceFacts_agree C L network t

end

/-! ## A backup, a signature and a restore -/

/-- The request for a backup. -/
def sampleBackup : Event := .request sampleEnv [] protoVersion (.backup ⟨"backup.json", ""⟩)

/-- A backup before the first signature. -/
def backedUp : List ShelfEvent :=
  [.signer (.restart .done .done), .signer sampleBackup,
    .signer (sampleEvent [] 0 (txidHex sampleSet))]

/-- It is restored, and the other unlock is asked for. -/
def restoredTo (salvage : Bool) : List ShelfEvent :=
  backedUp ++ [.restore 0 salvage [], .signer (.restart .done .done),
    .signer (sampleEvent [] 1 (txidHex sampleSet))]

/-- The run of some events from the sample seed. -/
def sampleShelf (es : List ShelfEvent) : List (ShelfEvent × ShelfAnswer) × Shelf :=
  Trace.run (Shelf.step sampleCrypto .blank .regtest) (Shelf.start sampleSeed) es

/-- The store behind the first signature. -/
def sampleOnce : SignOnce := (SignOnce.fresh false).insert (sampleRecord 0 (txidHex sampleSet))

theorem sampleStep_backup (c : Core) (d : Disk) :
    World.step sampleCrypto .blank .regtest ⟨some c, d⟩ sampleBackup =
      (.response (.written "backup.json"), ⟨some c, d⟩) :=
  World.step_of_answer sampleCrypto .blank rfl

theorem Shelf.step_signer {C : Crypto} {L : Sapling.Lib} {network : Network} {w w' : World}
    {a : Answer} {e : Event} (h : World.step C L network w e = (a, w')) (bs : List Disk) :
    Shelf.step C L network ⟨w, bs⟩ (.signer e) =
      (.signer a, ⟨w', if isBackup e a then backupOf w.disk :: bs else bs⟩) := by
  simp only [Shelf.step, h]

theorem sampleShelf_backedUp :
    (sampleShelf backedUp).2 = ⟨⟨some (sampleWith sampleOnce),
        { sampleDisk with once := some sampleOnce.toFile }⟩, [sampleDisk]⟩ ∧
      (sampleShelf backedUp).1.filterMap shelfSetFact = [sampleFact 0] := by
  obtain ⟨a, ha, hfa⟩ := sampleStep_absent (.inl rfl) sampleSet_lower sampleDisk
    (record?_fresh _ _) rfl
  have hfact : shelfSetFact (.signer (sampleEvent [] 0 (txidHex sampleSet)), .signer a) =
      some (sampleFact 0) := hfa
  simp only [sampleShelf, Trace.run, backedUp, Trace.runFrom, Shelf.start,
    Shelf.step_signer sampleStart, Shelf.step_signer (sampleStep_backup _ _),
    Shelf.step_signer ha, List.filterMap_cons, hfact]
  exact ⟨rfl, rfl⟩

/-- The start behind the restore without `salvage` finds what the first start left. -/
theorem sampleStep_restored :
    let s := (Shelf.step sampleCrypto .blank .regtest (sampleShelf backedUp).2
      (.restore 0 false [])).2
    Shelf.step sampleCrypto .blank .regtest s (.signer (.restart .done .done)) =
      (.signer (.started (.ok ())), ⟨⟨some (sampleWith (.fresh false)), sampleDisk⟩,
        [sampleDisk]⟩) := by
  have hopen : World.step sampleCrypto .blank .regtest ⟨none, sampleDisk⟩ (.restart .done .done) =
      (.started (.ok ()), ⟨some (sampleWith (.fresh false)), sampleDisk⟩) := by
    rw [World.step, sampleOpened (by simp)]
    rfl
  rw [sampleShelf_backedUp.1]
  exact Shelf.step_signer hopen [sampleDisk]

theorem sampleOpened_marked : (openSigner sampleCrypto .regtest .done .done { sampleDisk with
    once := some { SignOnce.fresh false with restored := true }.toFile }).1.toOption.isSome := by
  decide +kernel

theorem sampleShelf_restoredTo (salvage : Bool) :
    let s := (Shelf.step sampleCrypto .blank .regtest (sampleShelf backedUp).2
      (.restore 0 salvage []))
    let s' := Shelf.step sampleCrypto .blank .regtest s.2 (.signer (.restart .done .done))
    (sampleShelf (restoredTo salvage)).1 =
      (.signer (sampleEvent [] 1 (txidHex sampleSet)), (Shelf.step sampleCrypto .blank .regtest s'.2
          (.signer (sampleEvent [] 1 (txidHex sampleSet)))).1) ::
        (.signer (.restart .done .done), s'.1) :: (.restore 0 salvage [], s.1) ::
        (sampleShelf backedUp).1 := by
  have happend : restoredTo salvage = backedUp ++ [.restore 0 salvage []] ++
      [.signer (.restart .done .done)] ++ [.signer (sampleEvent [] 1 (txidHex sampleSet))] := rfl
  simp only [happend, sampleShelf, Trace.run_concat]

theorem restoredTo_plain {e : ShelfEvent} {salvage : Bool} (he : e ∈ restoredTo salvage) :
    e.Clean ∧ ∀ env ws version r, e = .signer (.request env ws version r) →
      Unacknowledged r ∧ LowerSet r := by
  have hset : ∀ l, Unacknowledged (.signSet (sampleUnlockRequest l (txidHex sampleSet))) ∧
      LowerSet (.signSet (sampleUnlockRequest l (txidHex sampleSet))) := by
    intro l
    refine ⟨rfl, fun set h ↦ ?_⟩
    obtain rfl := Except.ok.inj (sampleSet_lower.symm.trans h)
    rfl
  simp only [restoredTo, backedUp, List.cons_append, List.nil_append, List.mem_cons,
    List.not_mem_nil, or_false] at he
  rcases he with rfl | rfl | rfl | rfl | rfl | rfl
  · exact ⟨trivial, fun _ _ _ _ h ↦ nomatch h⟩
  · refine ⟨rfl, ?_⟩
    rintro _ _ _ _ ⟨⟩
    exact ⟨fun h ↦ h.elim, trivial⟩
  · refine ⟨rfl, ?_⟩
    rintro _ _ _ _ ⟨⟩
    exact hset 0
  · exact ⟨rfl, fun _ _ _ _ h ↦ nomatch h⟩
  · exact ⟨trivial, fun _ _ _ _ h ↦ nomatch h⟩
  · refine ⟨rfl, ?_⟩
    rintro _ _ _ _ ⟨⟩
    exact hset 1

/-- Without `salvage` the record is gone and the marker is not set: both unlocks are signed, and
nothing was acknowledged. -/
theorem not_remembers_restoredTo :
    OnFile (sampleShelf backedUp).2.world (sampleFact 0) ∧
      (let s := (Shelf.step sampleCrypto .blank .regtest (sampleShelf backedUp).2
          (.restore 0 false [])).2
        ∃ c, (Shelf.step sampleCrypto .blank .regtest s
            (.signer (.restart .done .done))).2.world.core = some c ∧ c.once.restored = false ∧
          c.once.record? (txidHex sampleSet) sampleOp.display = none) ∧
      (∀ e ∈ restoredTo false, e.Clean ∧ ∀ env ws version r,
        e = .signer (.request env ws version r) → Unacknowledged r ∧ LowerSet r) ∧
      (sampleShelf (restoredTo false)).1.filterMap shelfSetFact = [sampleFact 1, sampleFact 0] ∧
      ¬ (sampleFact 0).Agree (sampleFact 1) := by
  obtain ⟨b, hb, hfb⟩ := sampleStep_absent (l := 1) (.inr rfl) sampleSet_lower sampleDisk
    (record?_fresh _ _) rfl
  refine ⟨?_, ?_, fun e he ↦ restoredTo_plain he, ?_, ?_⟩
  · rw [sampleShelf_backedUp.1, OnFile, record?_records_toFile, sampleOnce, record?_insert,
      if_pos ⟨rfl, rfl⟩]
    rfl
  · intro s
    rw [sampleStep_restored]
    exact ⟨_, rfl, rfl, record?_fresh _ _⟩
  · have hfact : shelfSetFact (.signer (sampleEvent [] 1 (txidHex sampleSet)), .signer b) =
        some (sampleFact 1) := hfb
    rw [sampleShelf_restoredTo, sampleStep_restored, Shelf.step_signer hb, List.filterMap_cons,
      hfact, List.filterMap_cons, List.filterMap_cons, sampleShelf_backedUp.2]
    rfl
  · intro h
    exact absurd (h rfl rfl).2 (by decide +kernel)

/-! ## A price, a backup and a restore -/

/-- A backup behind the first attestation. -/
def pricedUp : List ShelfEvent :=
  [.signer (.restart .done .done), .signer (sampleAttestEvent 1 100 (txidHex sampleSet)),
    .signer sampleBackup]

/-- It is restored, and the price is asked for again. -/
def pricedAgain : List ShelfEvent :=
  pricedUp ++ [.restore 0 true []] ++ [.signer (.restart .done .done)] ++
    [.signer (sampleAttestEvent 2 100 (txidHex sampleSet))]

/-- The attestation is in the log of the directory, and the backup is that directory. -/
theorem sampleShelf_pricedUp : ∃ w : World, (sampleShelf pricedUp).2 = ⟨w, [w.disk]⟩ ∧
    (∃ sig, w.disk.log = [sampleAttested 1 100 (txidHex sampleSet) sig]) ∧
    (sampleShelf pricedUp).1.filterMap shelfPriceFact = [samplePrice 100] := by
  obtain ⟨a, sig, file, ha, hfa⟩ := @sampleStep_attest 1 100
    (txidHex sampleSet) [] none (by decide) sampleSet_lower (by simp) (by simp)
  have hstart : World.step sampleCrypto .blank .regtest (World.start sampleSeed)
      (.restart .done .done) = (.started (.ok ()), sampleLoggedWorld [] none) := sampleStart
  have hlogged : (sampleLoggedWorld ([] ++ [sampleAttested 1 100 (txidHex sampleSet) sig])
      file).Logged := by
    have h₀ : (World.start sampleSeed).Logged := ⟨rfl, fun _ h ↦ nomatch h⟩
    have h₁ := (World.logged_step sampleCrypto .blank .regtest h₀ (e := .restart .done .done)
      trivial).1
    rw [hstart] at h₁
    have h₂ := (World.logged_step sampleCrypto .blank .regtest h₁
      (e := sampleAttestEvent 1 100 (txidHex sampleSet)) (by simp [sampleAttestEvent,
        Event.Untorn])).1
    rwa [ha] at h₂
  have hfact : shelfPriceFact (.signer (sampleAttestEvent 1 100 (txidHex sampleSet)), .signer a) =
      some (samplePrice 100) := hfa
  have h₁ : Shelf.step sampleCrypto .blank .regtest ⟨World.start sampleSeed, []⟩
      (.signer (.restart .done .done)) =
        (.signer (.started (.ok ())), ⟨sampleLoggedWorld [] none, []⟩) :=
    Shelf.step_signer hstart []
  have h₂ := Shelf.step_signer ha []
  rw [if_neg (by simp [sampleAttestEvent, isBackup])] at h₂
  have h₃ := Shelf.step_signer (sampleStep_backup
    (sampleLogged ([] ++ [sampleAttested 1 100 (txidHex sampleSet) sig]) file).core
    (sampleLogged ([] ++ [sampleAttested 1 100 (txidHex sampleSet) sig]) file).disk) []
  rw [if_pos (by simp [sampleBackup, isBackup])] at h₃
  have hback := backupOf_eq hlogged.lines
  have hrun : sampleShelf pricedUp = ([(.signer sampleBackup, .signer (.response
      (.written "backup.json"))), (.signer (sampleAttestEvent 1 100 (txidHex sampleSet)), .signer a),
      (.signer (.restart .done .done), .signer (.started (.ok ())))],
      ⟨sampleLoggedWorld ([] ++ [sampleAttested 1 100 (txidHex sampleSet) sig]) file,
        [(sampleLoggedWorld ([] ++ [sampleAttested 1 100 (txidHex sampleSet) sig]) file).disk]⟩) := by
    simp only [sampleShelf, Trace.run, pricedUp, Trace.runFrom, Shelf.start, h₁, h₂]
    rw [sampleLoggedWorld, h₃]
    rw [sampleLoggedWorld] at hback
    rw [hback]
  refine ⟨_, congrArg Prod.snd hrun, ⟨sig, (hlogged.core _ rfl).symm⟩, ?_⟩
  rw [hrun, List.filterMap_cons, List.filterMap_cons, hfact]
  rfl

theorem trace_pricedUp : Trace (Shelf.step sampleCrypto .blank .regtest) Logging
    (Shelf.start sampleSeed) (sampleShelf pricedUp).1 (sampleShelf pricedUp).2 := by
  rw [sampleShelf]
  refine Trace.trace_run ⟨⟨trivial, trivial⟩, ⟨rfl, by simp, ?_⟩, ⟨rfl, ?_⟩, trivial⟩
  · rw [Shelf.start, Shelf.step_signer sampleStart]
    intro c x block hc hx
    cases hc
    cases hx
  · rw [sampleBackup]
    exact trivial

/-- The restore keeps the log, and the price is asked for under one spelling of the block. -/
theorem trace_pricedAgain : Trace (Shelf.step sampleCrypto .blank .regtest) Logging
    (Shelf.start sampleSeed) (sampleShelf pricedAgain).1 (sampleShelf pricedAgain).2 := by
  obtain ⟨w, hw, ⟨sig, hlog⟩, -⟩ := sampleShelf_pricedUp
  have hs : (sampleShelf pricedUp).2.Sound :=
    (@Trace.invariant _ _ _ _ _ _ _ _ (fun _ s ↦ s.Sound) trace_pricedUp)
      (Shelf.sound_start sampleSeed)
      fun _ _ _ hs he ↦ Shelf.sound_step sampleCrypto .blank .regtest hs he.clean
  have hbackup : (sampleShelf pricedUp).2.backups[0]? = some w.disk := by
    rw [hw]
    rfl
  have hrestore : Logging (sampleShelf pricedUp).2 (.restore 0 true []) := by
    refine ⟨rfl, fun b hb ↦ ?_⟩
    obtain rfl := Option.some.inj (hbackup.symm.trans hb)
    rw [hw]
    exact List.Subset.refl _
  have hrestart : Logging (Trace.run (Shelf.step sampleCrypto .blank .regtest)
      (Shelf.start sampleSeed) (pricedUp ++ [.restore 0 true []])).2
      (.signer (.restart .done .done)) := ⟨True.intro, True.intro⟩
  have hrun := Trace.trace_run_concat (Trace.trace_run_concat trace_pricedUp hrestore) hrestart
  refine Trace.trace_run_concat hrun ⟨rfl, by simp, ?_⟩
  intro c x block hc hx _ _ _ _
  simp only [Trace.run_concat] at hc
  rw [sampleShelf] at hs hbackup
  have hguard : c.guard = w.disk.log :=
    (restored_restart sampleCrypto .blank .regtest hs hbackup true .done .done hc).2.2
  rw [hguard, hlog, List.mem_singleton] at hx
  rw [hx]
  rfl

theorem samplePrice_mem_pricedAgain :
    samplePrice 100 ∈ (sampleShelf pricedAgain).1.filterMap shelfPriceFact := by
  have hmem : samplePrice 100 ∈ (sampleShelf pricedUp).1.filterMap shelfPriceFact := by
    obtain ⟨-, -, -, hfacts⟩ := sampleShelf_pricedUp
    rw [hfacts]
    exact List.mem_singleton.mpr rfl
  simp only [pricedAgain, sampleShelf, Trace.run_concat]
  obtain ⟨x, hx, hfact⟩ := List.mem_filterMap.mp hmem
  exact List.mem_filterMap.mpr
    ⟨x, .tail _ (.tail _ (.tail _ hx)), hfact⟩

/-- With `salvage` the signer starts with the marker, and the run is mindful.  A price that was
attested before the backup is not contradicted behind its restore. -/
theorem restore_remembers_salvage :
    (let s := (Shelf.step sampleCrypto .blank .regtest (sampleShelf backedUp).2
        (.restore 0 true [])).2
      ∃ c, (Shelf.step sampleCrypto .blank .regtest s
        (.signer (.restart .done .done))).2.world.core = some c ∧ c.once.restored = true) ∧
      (∀ x ∈ (sampleShelf (restoredTo true)).1, ∀ y ∈ (sampleShelf (restoredTo true)).1, ∀ a b,
        shelfSetFact x = some a → shelfSetFact y = some b → a.Agree b) ∧
      samplePrice 100 ∈ (sampleShelf pricedAgain).1.filterMap shelfPriceFact ∧
      (sampleShelf pricedAgain).1.Pairwise fun y x ↦ ∀ a b, shelfPriceFact x = some a →
        shelfPriceFact y = some b → a.Agree b := by
  obtain ⟨hrestored, hsets, hprices⟩ := restore_remembers sampleCrypto .blank .regtest
  refine ⟨?_, hsets _ _ _ (Trace.trace_run (Trace.guarded_of_forall ?_)),
    samplePrice_mem_pricedAgain, hprices _ _ _ trace_pricedAgain⟩
  · intro s
    have hdisk : s.world.disk =
        { sampleDisk with once := some { SignOnce.fresh false with restored := true }.toFile } := by
      change (Shelf.step sampleCrypto .blank .regtest (sampleShelf backedUp).2
        (.restore 0 true [])).2.world.disk = _
      rw [sampleShelf_backedUp.1]
      rfl
    obtain ⟨c, hc⟩ := Option.isSome_iff_exists.mp sampleOpened_marked
    rw [← hdisk] at hc
    have hclean : ∀ e ∈ backedUp, ∀ s : Shelf, e.Clean :=
      fun e he _ ↦ (@restoredTo_plain e true (List.mem_append_left _ he)).1
    have hbackup : (sampleShelf backedUp).2.backups[0]? = some sampleDisk := by
      rw [sampleShelf_backedUp.1]
      rfl
    exact ⟨c, hc, (hrestored _ _ _ (Trace.trace_run (Trace.guarded_of_forall hclean)) 0 sampleDisk
      true .done .done c hbackup hc).1 rfl⟩
  · intro e he s
    obtain ⟨hclean, hplain⟩ := restoredTo_plain he
    cases e with
    | signer e =>
      cases e with
      | request env ws version r => exact ⟨hclean, hplain env ws version r rfl⟩
      | restart w₁ w₂ => trivial
    | restore i salvage ws =>
      have hsalvage : salvage = true := by
        simp [restoredTo, backedUp] at he
        exact he.2.1
      exact ⟨hclean, fun b _ ↦ .inl hsalvage⟩

end Yew.Signer
