import Yew.Signer.Handle

/-!
# What a request cannot touch

Only three requests sign under a guard: a set signature, an attestation and a cancel
co-signature; and only two rewrite the seal of the key stores: `encryptwallet` and
`walletpassphrase`.  `Kept` says of any relation what the operations of the stores have to keep, and
then every other request keeps it (`ends_answer`).  `Tame` is the case of a relation that does not
look at the key stores: it allows the free part of the state to change, and is kept by the marks of
the sign-once store.

The requests are those of `yewd/signer/src/sign.rs`; each lemma is a triple of `Yew.Util.Proc`.
-/

namespace Yew.Signer

open Tx Keys Proto Proc

/-- A relation that every operation keeps which touches neither the transparent keys nor the
sign-once store. -/
class Placid (R : Option Stop → St → St → Prop) : Prop extends Route R where
  idle : ∀ {o s s'}, Idle s s' → R o s s'
  caught : ∀ {code reason s s'}, R (some (.refused code reason)) s s' → R none s s'
  nextWrite : Ends R nextWrite
  publicCache : ∀ b, Ends R (writePublicCache b)
  addPqImported : ∀ scheme seed, Ends R (addPqImported scheme seed)

/-- A relation that the operations of the stores keep, one by one. -/
class Calm (R : Option Stop → St → St → Prop) : Prop extends Placid R where
  keyImported : ∀ hash members, Ends R (keyImported hash members)
  joinsSeen : ∀ hashes, Ends R (joinsSeen hashes)

/-- The same with the imported transparent keys, whose public keys are derived. -/
class Kept (C : Crypto) (R : Option Stop → St → St → Prop) : Prop extends Calm R where
  addImported : ∀ key, Ends R (addImported C key)

section Steps

variable {R : Option Stop → St → St → Prop} [Placid R] {α β : Type}

/-- A procedure that only asks for keys. -/
theorem Quiet.ends {x : M α} (h : Quiet x) : Ends R x := fun s ↦ Placid.idle (h.moves s)

theorem ends_encState : Ends R encState := fun s ↦ Placid.idle (moves_encState s)

theorem ends_orRefuse (code : String) (text : String → String) (x : Except String α) :
    Ends R (orRefuse code text x) := (quiet_orRefuse code text x).ends

theorem ends_no (code reason : String) : Ends R (no code reason : M α) :=
  (quiet_no code reason).ends

theorem ends_core : Ends R core := quiet_core.ends

theorem ends_keys : Ends R keys := quiet_keys.ends

/-- `walletlock` locks an encrypted wallet, or does nothing. -/
theorem ends_walletLock : Ends R walletLock := by
  intro s
  by_cases he : s.core.ks.encrypted
  · have h : walletLock s = (.ok ⟨true, 0⟩, { s with core := s.core.locked }) := by
      simp [walletLock, Proc.bind_apply, core, he, doLock, modifyCore]
    rw [h]
    exact Placid.idle ⟨rfl, rfl, rfl, .inr ⟨he, rfl⟩⟩
  · have h : (walletLock s).2 = s := by
      simp [walletLock, Proc.bind_apply, core, he, no]
    rw [h]
    exact Route.refl _ s

variable (C : Crypto) (L : Sapling.Lib)

theorem ends_publicOf (req : PublicRequest) : Ends R (publicOf C L req) := by
  refine Ends.bind Ends.get fun s ↦ ?_
  split
  · exact .pure _
  · split
    · exact .pure _
    · split
      · exact .pure _
      · split
        · exact (Placid.publicCache _).bind fun _ ↦ .pure _
        · exact .pure _

theorem ends_publicRequest (r : PublicRequest) : Ends R (publicRequest C L r) := by
  refine ends_encState.bind fun _ ↦ (ends_publicOf C L r).bind fun x ↦ ?_
  cases x with
  | ok b => exact ends_core.bind fun _ ↦ .pure _
  | error e => exact .ite (ends_no _ _) (ends_no _ _)

theorem ends_hello : Ends R hello :=
  ends_encState.bind fun _ ↦ ends_core.bind fun _ ↦ .pure _

/-! ## Imports and dumps -/

theorem ends_catchRefused {x : M α} (hx : Ends R x) : Ends R (catchRefused x) := by
  intro s
  have h := hx s
  unfold catchRefused
  split
  · rename_i hs
    rw [hs] at h
    exact h
  · rename_i hs
    rw [hs] at h
    exact Placid.caught h
  · rename_i hs
    rw [hs] at h
    exact h

theorem ends_writeNew (path : String) : Ends R (writeNew path) := by
  refine Placid.nextWrite.bind fun w ↦ ?_
  cases w with
  | done => exact .pure _
  | failed e kept => exact .ite (ends_no _ _) (ends_no _ _)
  | cut kept => exact .throw _

theorem quiet_dumpKey (k : KeyRef) : Quiet (dumpKey C k) := by
  cases k with
  | bip32 chain index =>
    exact (quiet_transparent C chain index).bind fun _ ↦ quiet_core.bind fun _ ↦ .pure _
  | _ => exact quiet_no _ _

theorem quiet_ownSeed (scheme : UInt8) (index : UInt32) : Quiet (ownSeed C scheme index) :=
  quiet_keys.bind fun _ ↦ .pure _

theorem quiet_pqSeedOf (scheme : UInt8) (index : UInt32) : Quiet (pqSeedOf C scheme index) :=
  .ite (quiet_keys.bind fun _ ↦ quiet_core.bind fun _ ↦ (quiet_orElse _ _ _).bind fun _ ↦
    quiet_orElse _ _ _) (quiet_ownSeed C scheme index)

theorem quiet_isOwnSeed (scheme : UInt8) (index : Option UInt32) (seed : Bytes) :
    Quiet (isOwnSeed C scheme index seed) := by
  unfold isOwnSeed
  split
  · exact .pure _
  · exact (quiet_ownSeed C scheme _).bind fun _ ↦ .pure _

theorem ends_addPq (scheme : UInt8) (index : Option UInt32) (seed : Bytes) :
    Ends R (addPq C scheme index seed) := by
  refine .ite (ends_no _ _) ?_
  split
  · exact ends_no _ _
  · refine (quiet_isOwnSeed C scheme index seed).ends.bind fun own ↦ ?_
    cases own with
    | some i => exact .pure _
    | none =>
      exact (Placid.addPqImported scheme seed).bind fun _ ↦ (ends_orRefuse _ _ _).bind fun _ ↦
        .pure _

theorem ends_importPq (r : PqImportRequest) : Ends R (importPq C r) := by
  refine ends_keys.bind fun _ ↦ ?_
  split
  · exact ends_no _ _
  · exact ends_addPq C _ _ _

theorem quiet_phrase : Quiet phrase := quiet_core.bind fun _ ↦ quiet_orElse _ _ _

theorem quiet_dumpLine (l : DumpLine) : Quiet (dumpLine C L l) := by
  cases l with
  | text t => exact .pure _
  | key k rest => exact (quiet_dumpKey C k).bind fun _ ↦ .pure _
  | pqSeed scheme index t rest => exact (quiet_pqSeedOf C scheme index).bind fun _ ↦ .pure _
  | sapling rest =>
    exact quiet_phrase.bind fun _ ↦ quiet_core.bind fun _ ↦ (quiet_orRefuse _ _ _).bind fun _ ↦
      .pure _
  | recovery => exact quiet_phrase.bind fun _ ↦ .pure _

theorem ends_dump (r : DumpRequest) : Ends R (dump C L r) :=
  ends_keys.bind fun _ ↦ (Quiet.ends (.forEach (quiet_dumpLine C L) _)).bind fun _ ↦
    (ends_writeNew _).bind fun _ ↦ .pure _

theorem ends_backup (r : BackupRequest) : Ends R (backup r) := by
  refine (ends_catchRefused (ends_writeNew _)).bind fun x ↦ ?_
  cases x with
  | ok => exact .pure _
  | error e => exact ends_no _ _

theorem ends_importPqLine (d : DumpState) (body : List Char) :
    Ends R (importPqLine C d body) := by
  unfold importPqLine
  split
  · exact .pure _
  · refine (ends_catchRefused (ends_addPq C _ _ _)).bind fun x ↦ ?_
    cases x with
    | ok k => exact .pure _
    | error e => exact .pure _

theorem ends_importRecords {rs : List SignedRecord} (himport : Ends R (importOnce rs)) :
    Ends R (importRecords rs) := by
  refine himport.bind fun x ↦ ?_
  cases x with
  | ok counts => exact .pure _
  | error e => exact .ite (ends_no _ _) (ends_no _ _)

/-! ## The guarded requests -/

theorem ends_signOnce (hrec : ∀ x, Ends R (recordOnce x)) (r : SetSignRequest) (x : SetSubject)
    (secrets : List SecretKey) : Ends R (signOnce r x secrets) := by
  refine ends_core.bind fun c ↦ ?_
  dsimp only
  split
  · exact .pure _
  · exact ends_no _ _
  · exact .ite (.pure _) <| .ite (ends_no _ _) <| (hrec _).bind fun _ ↦ ends_orRefuse _ _ _

theorem ends_signSet {r : SetSignRequest} (hone : ∀ x secrets, Ends R (signOnce r x secrets)) :
    Ends R (signSet C r) :=
  (quiet_setSubject C r).ends.bind fun _ ↦
    (Quiet.ends (.forEach (quiet_memberSecret C _) _)).bind fun _ ↦
      (hone _ _).bind fun _ ↦ .pure _

theorem quiet_roleKey (k : KeyRef) (pubkey what : String) : Quiet (roleKey C k pubkey what) := by
  cases k with
  | bip32 chain index =>
    exact (quiet_transparent C chain index).bind fun _ ↦ .ite (quiet_no _ _) (.pure _)
  | _ => exact (quiet_no _ _).bind fun _ ↦ .ite (quiet_no _ _) (.pure _)

theorem ends_guardedAttestation (hrec : ∀ x, Ends R (recordGuard x)) (sk : SecretKey)
    (pk : Arr 33) (seq : UInt16) (price height : UInt32) (hash : String) :
    Ends R (guardedAttestation C sk pk seq price height hash) := by
  refine (quiet_orHalt _ _ _).ends.bind fun block ↦ ends_core.bind fun c ↦ ?_
  dsimp only
  split
  · exact ends_no _ _
  · split
    · exact .ite (ends_no _ _) ((quiet_orElse _ _ _).ends.bind fun _ ↦ .pure _)
    · exact .ite (ends_no _ _) ((hrec _).bind fun _ ↦ (ends_orRefuse _ _ _).bind fun _ ↦ .pure _)

theorem ends_signAttestation (hguarded : ∀ sk pk seq price height hash,
    Ends R (guardedAttestation C sk pk seq price height hash)) (r : AttestRequest) :
    Ends R (signAttestation C r) :=
  .ite (ends_no _ _) <| (quiet_roleKey C _ _ _).ends.bind fun _ ↦
    (hguarded _ _ _ _ _ _).bind fun _ ↦ .pure _

theorem quiet_cosignPrice (height : UInt32) (p : Option UInt32) (prior : Option (UInt16 × UInt32)) :
    Quiet (cosignPrice height p prior) := by
  cases p with
  | none =>
    cases prior with
    | none => exact quiet_no _ _
    | some q => exact .pure _
  | some p =>
    cases prior with
    | none => exact .pure _
    | some q => exact .ite (quiet_no _ _) (.pure _)

theorem ends_cancelCosign (hguarded : ∀ sk pk seq price height hash,
    Ends R (guardedAttestation C sk pk seq price height hash)) (r : CosignRequest) :
    Ends R (cancelCosign C r) :=
  (quiet_roleKey C _ _ _).ends.bind fun _ ↦ ends_core.bind fun _ ↦
    (ends_orRefuse _ _ _).bind fun _ ↦ (quiet_cosignPrice _ _ _).ends.bind fun _ ↦
      .ite (ends_no _ _) <| .ite (ends_no _ _) <|
        (hguarded _ _ _ _ _ _).bind fun _ ↦
          (quiet_orHalt _ _ _).ends.bind fun _ ↦ (quiet_outPointOr _ _ _).ends.bind fun _ ↦
            (quiet_orHalt _ _ _).ends.bind fun _ ↦ .pure _

theorem quiet_signMessage (r : MessageRequest) : Quiet (signMessage C r) := by
  unfold signMessage
  split
  · exact (quiet_transparent C _ _).bind fun _ ↦ .pure _
  · exact (quiet_no _ _).bind fun _ ↦ .pure _

/-! ## Every request -/

theorem ends_listAfter {x : M (Except String Unit)} (hx : Ends R x) : Ends R (listAfter x) :=
  hx.bind fun _ ↦ (ends_orRefuse _ _ _).bind fun _ ↦ ends_core.bind fun _ ↦ .pure _

/-- A request that brings sign-once records with it. -/
def BringsRecords : Request → Prop
  | .importSigned _ | .importDump _ => True
  | _ => False

/-- What those operations keep every request keeps, if the guarded ones, the acknowledgement, the
imports and those that seal and open the stores do. -/
theorem ends_answer_of (r : Request) (hset : ∀ x, r = .signSet x → Ends R (signSet C x))
    (hattest : ∀ x, r = .signAttestation x → Ends R (signAttestation C x))
    (hcosign : ∀ x, r = .cancelCosign x → Ends R (cancelCosign C x))
    (hack : r = .acknowledgeRestore → Ends R acknowledge)
    (hjoins : ∀ x, r = .joinsSeen x → Ends R (joinsSeen x))
    (hrecords : ∀ x, r = .importSigned x → Ends R (importOnce x))
    (hkey : ∀ x, r = .importKey x → Ends R (importKey C x))
    (hdump : ∀ x, r = .importDump x → Ends R (importDump C L x))
    (hencrypt : ∀ x, r = .encrypt x → Ends R (encrypt C L x))
    (hunlock : ∀ x, r = .unlock x → Ends R (unlock C x)) : Ends R (answer C L r) := by
  cases r with
  | hello => exact ends_hello.bind fun _ ↦ .pure _
  | publicBundle r => exact (ends_publicRequest C L r).bind fun _ ↦ .pure _
  | sign r => exact (quiet_sign C L r).ends.bind fun _ ↦ .pure _
  | signAct r => exact (quiet_signAct C r).ends.bind fun _ ↦ .pure _
  | signSet r => exact (hset r rfl).bind fun _ ↦ .pure _
  | listSigned => exact ends_core.bind fun _ ↦ .pure _
  | importSigned rs => exact (ends_importRecords (hrecords rs rfl)).bind fun _ ↦ .pure _
  | acknowledgeRestore => exact (ends_listAfter (hack rfl)).bind fun _ ↦ .pure _
  | signAttestation r => exact (hattest r rfl).bind fun _ ↦ .pure _
  | cancelCosign r => exact (hcosign r rfl).bind fun _ ↦ .pure _
  | signMessage r => exact (quiet_signMessage C r).ends.bind fun _ ↦ .pure _
  | importKey r => exact (hkey r rfl).bind fun _ ↦ .pure _
  | dumpKey k => exact (quiet_dumpKey C k).ends.bind fun _ ↦ .pure _
  | encrypt r => exact (hencrypt r rfl).bind fun _ ↦ .pure _
  | unlock r => exact (hunlock r rfl).bind fun _ ↦ .pure _
  | lock => exact ends_walletLock.bind fun _ ↦ .pure _
  | dump r => exact (ends_dump C L r).bind fun _ ↦ .pure _
  | importDump r => exact (hdump r rfl).bind fun _ ↦ .pure _
  | importPq r => exact (ends_importPq C r).bind fun _ ↦ .pure _
  | backup r => exact (ends_backup r).bind fun _ ↦ .pure _
  | saplingBuild r => exact (quiet_saplingBuild C L r).ends.bind fun _ ↦ .pure _
  | joinsSeen hs => exact (ends_listAfter (hjoins hs rfl)).bind fun _ ↦ .pure _

theorem ends_handle {r : Request} (h : Ends R (answer C L r)) (version : UInt32) :
    Ends R (handle C L version r) := .ite (ends_no _ _) h

end Steps

section Marks

variable {R : Option Stop → St → St → Prop} [Calm R] (C : Crypto)

theorem ends_markImported (pub : Arr 33) (members : Option (List String)) :
    Ends R (markImported C pub members) :=
  (Calm.keyImported _ _).bind fun _ ↦ ends_orRefuse _ _ _

theorem ends_markDumped (members : Option (List String)) (k : ImportedKey × Option String) :
    Ends R (markDumped C members k) :=
  .ite ((Calm.keyImported _ _).bind fun _ ↦ ends_orRefuse _ _ _) (.pure _)

end Marks

section Requests

variable {R : Option Stop → St → St → Prop} (C : Crypto) (L : Sapling.Lib) [Kept C R]

theorem ends_importKey (r : ImportKeyRequest) : Ends R (importKey C r) :=
  ends_keys.bind fun _ ↦ ends_core.bind fun _ ↦ (ends_orRefuse _ _ _).bind fun _ ↦
    (Kept.addImported _).bind fun _ ↦ (ends_orRefuse _ _ _).bind fun _ ↦
      .ite ((ends_markImported C _ _).bind fun _ ↦ .pure _) (.pure _)

theorem ends_importKeyLine (d : DumpState) (w : List Char) (rest : List (List Char)) :
    Ends R (importKeyLine C d w rest) := by
  refine ends_core.bind fun c ↦ ?_
  split
  · exact .pure _
  · refine (quiet_orHalt _ _ _).ends.bind fun label ↦ (Kept.addImported _).bind fun x ↦ ?_
    cases x with
    | ok k => exact .pure _
    | error e => exact .pure _

theorem ends_importSecretLine (zkeys : Bool) (d : DumpState) (w : List Char)
    (rest : List (List Char)) : Ends R (importSecretLine C L zkeys d w rest) := by
  refine ends_core.bind fun c ↦ .ite ?_ ?_
  · exact Ends.bind (ends_core.bind fun _ ↦ .pure _) fun _ ↦ .pure _
  · split
    · exact ends_importPqLine C d _
    · exact ends_importKeyLine C d w _

theorem ends_importLine (zkeys : Bool) (d : DumpState) (line : List Char) :
    Ends R (importLine C L zkeys d line) := by
  refine .ite (.pure _) ?_
  split
  · exact .pure _
  · refine .ite (.pure _) ?_
    split
    · split
      · exact .pure _
      · exact ends_no _ _
    · split
      · exact .pure _
      · exact .pure _
      · exact .ite (.pure _) (ends_importSecretLine C L zkeys d _ _)

theorem ends_importLines (zkeys : Bool) (d : DumpState) (ls : List (List Char)) :
    Ends R (importLines C L zkeys d ls) := by
  induction ls generalizing d with
  | nil => exact .pure _
  | cons l ls ih => exact (ends_importLine C L zkeys d l).bind fun d ↦ ih d

theorem ends_importDump (himport : ∀ rs, Ends R (importOnce rs)) (r : ImportDumpRequest) :
    Ends R (importDump C L r) :=
  ends_keys.bind fun _ ↦ Ends.bind Ends.get fun _ ↦ (quiet_orElse _ _ _).ends.bind fun _ ↦
    (ends_importLines C L _ _ _).bind fun _ ↦
      Ends.bind (.forEach (ends_markDumped C _) _) fun _ ↦
        Ends.bind (.ite (.pure _) ((ends_importRecords (himport _)).bind fun _ ↦ .pure _)) fun _ ↦
          .ite (ends_no _ _) (.pure _)

/-- What the stores keep every request keeps, if the guarded ones, the acknowledgement, the import of
records and those that seal and open the stores do. -/
theorem ends_answer (r : Request) (hset : ∀ x, r = .signSet x → Ends R (signSet C x))
    (hattest : ∀ x, r = .signAttestation x → Ends R (signAttestation C x))
    (hcosign : ∀ x, r = .cancelCosign x → Ends R (cancelCosign C x))
    (hack : r = .acknowledgeRestore → Ends R acknowledge)
    (himport : BringsRecords r → ∀ rs, Ends R (importOnce rs))
    (hencrypt : ∀ x, r = .encrypt x → Ends R (encrypt C L x))
    (hunlock : ∀ x, r = .unlock x → Ends R (unlock C x)) : Ends R (answer C L r) := by
  refine ends_answer_of C L r hset hattest hcosign hack (fun _ _ ↦ Calm.joinsSeen _) ?_
    (fun _ _ ↦ ends_importKey C _) ?_ hencrypt hunlock
  · rintro rs rfl
    exact himport trivial rs
  · rintro x rfl
    exact ends_importDump C L (himport trivial) x

end Requests

/-! ## Relations that ignore the key stores -/

/-- The records, the log and their files are as they were, and no outcome was added. -/
structure Free (s s' : St) : Prop where
  once : s'.core.once = s.core.once
  guard : s'.core.guard = s.core.guard
  diskOnce : s'.disk.once = s.disk.once
  diskGuard : s'.disk.guard = s.disk.guard
  writes : s'.writes <:+ s.writes

/-- A relation that the free part of the state cannot break, nor the marks of the sign-once store. -/
class Tame (R : St → St → Prop) : Prop extends Proc.Path R where
  free : ∀ {s s'}, Free s s' → R s s'
  keyImported : ∀ hash members, Moves R (keyImported hash members)
  joinsSeen : ∀ hashes, Moves R (joinsSeen hashes)

theorem Idle.free {s s' : St} (h : Idle s s') : Free s s' where
  once := by
    rcases h.core with hc | ⟨-, hc⟩
    · rw [hc]
    · rw [hc]
      rfl
  guard := by
    rcases h.core with hc | ⟨-, hc⟩
    · rw [hc]
    · rw [hc]
      rfl
  diskOnce := by rw [h.disk]
  diskGuard := by rw [h.disk]
  writes := h.writes ▸ List.suffix_refl _

section Tame

variable {R : St → St → Prop} [Tame R]

theorem moves_core : Moves R core := fun s ↦ Proc.Path.refl s

theorem moves_nextWrite : Moves R nextWrite := by
  intro s
  refine Tame.free ⟨?_, ?_, ?_, ?_, ?_⟩ <;> unfold nextWrite <;> split
  all_goals first
    | exact List.suffix_refl _
    | rfl
    | (rename_i hw; rw [hw]; exact List.suffix_cons _ _)

theorem moves_modifyCore {f : Core → Core} (honce : ∀ c, (f c).once = c.once)
    (hguard : ∀ c, (f c).guard = c.guard) : Moves R (modifyCore f) := fun s ↦
  Tame.free ⟨honce s.core, hguard s.core, rfl, rfl, List.suffix_refl _⟩

theorem moves_modifyDisk {f : Disk → Disk} (honce : ∀ d, (f d).once = d.once)
    (hguard : ∀ d, (f d).guard = d.guard) : Moves R (modifyDisk f) := fun s ↦
  Tame.free ⟨rfl, rfl, honce s.disk, hguard s.disk, List.suffix_refl _⟩

theorem moves_replaceFile {f : Disk → Disk} (honce : ∀ d, (f d).once = d.once)
    (hguard : ∀ d, (f d).guard = d.guard) : Moves R (replaceFile f) := by
  refine moves_nextWrite.bind fun w ↦ ?_
  cases w with
  | done => exact (moves_modifyDisk honce hguard).bind fun _ ↦ .pure _
  | failed e kept => exact .pure _
  | cut kept =>
    exact .ite ((moves_modifyDisk honce hguard).bind fun _ ↦ .throw _) (.throw _)

theorem moves_modifyImported (f : Imported → Imported) : Moves R (modifyImported f) :=
  moves_modifyCore (fun _ ↦ rfl) fun _ ↦ rfl

theorem moves_modifyKs (f : Keystore → Keystore) : Moves R (modifyKs f) :=
  moves_modifyCore (fun _ ↦ rfl) fun _ ↦ rfl

theorem moves_doLock : Moves R doLock := moves_modifyCore (fun _ ↦ rfl) fun _ ↦ rfl

theorem moves_saveImported : Moves R saveImported :=
  moves_core.bind fun _ ↦ moves_replaceFile (fun _ ↦ rfl) fun _ ↦ rfl

theorem moves_encryptImported (pass : String) : Moves R (encryptImported pass) :=
  (moves_modifyImported _).bind fun _ ↦ moves_saveImported

theorem moves_writePublicCache (b : PublicBundle) : Moves R (writePublicCache b) :=
  moves_replaceFile (fun _ ↦ rfl) fun _ ↦ rfl

theorem moves_savePqImported : Moves R savePqImported :=
  moves_core.bind fun _ ↦ moves_replaceFile (fun _ ↦ rfl) fun _ ↦ rfl

theorem moves_addPqImported (scheme : UInt8) (seed : Bytes) :
    Moves R (addPqImported scheme seed) := by
  refine moves_core.bind fun c ↦ ?_
  split
  · exact .pure _
  · refine Moves.bind (moves_modifyCore (fun _ ↦ rfl) fun _ ↦ rfl) fun _ ↦
      moves_savePqImported.bind fun x ↦ ?_
    cases x with
    | error e => exact Moves.bind (moves_modifyCore (fun _ ↦ rfl) fun _ ↦ rfl) fun _ ↦ .pure _
    | ok => exact moves_core.bind fun _ ↦ .pure _

instance : Calm (fun _ ↦ R) where
  idle h := Tame.free h.free
  caught h := h
  nextWrite := moves_nextWrite
  publicCache := moves_writePublicCache
  addPqImported := moves_addPqImported
  keyImported := Tame.keyImported
  joinsSeen := Tame.joinsSeen

variable (C : Crypto) (L : Sapling.Lib)

theorem moves_addImported (key : SecretKey) : Moves R (addImported C key) := by
  refine moves_core.bind fun c ↦ ?_
  dsimp only
  split
  · exact .pure _
  · refine .ite (.pure _) ((moves_modifyImported _).bind fun _ ↦ moves_saveImported.bind fun x ↦ ?_)
    cases x with
    | error e => exact (moves_modifyImported _).bind fun _ ↦ .pure _
    | ok => exact moves_core.bind fun _ ↦ .pure _

instance : Kept C (fun _ ↦ R) where
  addImported := moves_addImported C

theorem moves_encryptKs (pass : String) (cache : PublicBundle) :
    Moves R (encryptKs pass cache) := by
  refine moves_core.bind fun c ↦ ?_
  dsimp only
  split
  · exact .pure _
  · refine (moves_writePublicCache cache).bind fun x ↦ ?_
    cases x with
    | error e => exact .pure _
    | ok =>
      refine Moves.bind (moves_replaceFile (fun _ ↦ rfl) fun _ ↦ rfl) fun y ↦ ?_
      cases y with
      | error e => exact .pure _
      | ok => exact (moves_modifyKs _).bind fun _ ↦ .pure _

theorem moves_orRefuse {α : Type} (code : String) (text : String → String) (x : Except String α) :
    Moves R (orRefuse code text x) := fun s ↦ Proc.Path.refl s

theorem moves_no {α : Type} (code reason : String) : Moves R (no code reason : M α) :=
  fun s ↦ Proc.Path.refl s

theorem moves_encrypt (r : EncryptRequest) : Moves R (encrypt C L r) :=
  moves_core.bind fun _ ↦ .ite (moves_no _ _) <| .ite (moves_no _ _) <|
    Moves.bind (ends_publicOf (R := fun _ ↦ R) C L _) fun _ ↦ (moves_orRefuse _ _ _).bind fun _ ↦
      moves_core.bind fun _ ↦ (moves_encryptImported _).bind fun _ ↦
        (moves_orRefuse _ _ _).bind fun _ ↦ (moves_encryptKs _ _).bind fun _ ↦
          (moves_orRefuse _ _ _).bind fun _ ↦ moves_doLock.bind fun _ ↦ .pure _

theorem moves_unlock (r : UnlockRequest) : Moves R (unlock C r) := by
  refine moves_core.bind fun c ↦ .ite (moves_no _ _) <| .ite (moves_no _ _) <|
    (moves_modifyKs _).bind fun _ ↦ ?_
  split
  · exact moves_no _ _
  · exact moves_doLock.bind fun _ ↦ moves_no _ _
  · exact (moves_modifyImported _).bind fun _ ↦ moves_core.bind fun _ ↦
      (moves_orRefuse _ _ _).bind fun _ ↦ Moves.bind (quiet_now.ends (R := fun _ ↦ R)) fun _ ↦
        Moves.bind (moves_modifyCore (fun _ ↦ rfl) fun _ ↦ rfl) fun _ ↦ .pure _

/-- A tame relation is kept by every request, if the guarded ones, the acknowledgement and the import
of records keep it. -/
theorem moves_handle (version : UInt32) (r : Request)
    (hset : ∀ x, r = .signSet x → Moves R (signSet C x))
    (hattest : ∀ x, r = .signAttestation x → Moves R (signAttestation C x))
    (hcosign : ∀ x, r = .cancelCosign x → Moves R (cancelCosign C x))
    (hack : r = .acknowledgeRestore → Moves R acknowledge)
    (himport : BringsRecords r → ∀ rs, Moves R (importOnce rs)) :
    Moves R (handle C L version r) :=
  ends_handle C L (ends_answer (R := fun _ ↦ R) C L r hset hattest hcosign hack himport
    (fun x _ ↦ moves_encrypt C L x) fun x _ ↦ moves_unlock C x) version

end Tame

end Yew.Signer
