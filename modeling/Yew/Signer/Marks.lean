import Yew.Signer.ImportOnce
import Yew.Signer.KeyRuns

/-!
# Keys and their marks

A key that comes into the store brings no sign-once history with it, so it is to be marked: by the
restore marker, or by its hash among those watched for a `SET_JOIN`.  Here stands what the store has,
in memory and under its seals, what is marked, and what each operation does to the two.

The marker and its file are those of `yewd/signer/src/signonce.rs`.
-/

namespace Yew.Signer

open Tx Keys Proto Proc SignOnce

/-! ## The keys of a store -/

/-- One of the texts is this key's. -/
def SpellsKey (hs : List String) (k : SecretKey) : Prop := ∃ h ∈ hs, Imported.parseKey h = .ok k

theorem spells_hexKey {ks : List SecretKey} {k : SecretKey} :
    SpellsKey (ks.map Imported.hexKey) k ↔ k ∈ ks := by
  constructor
  · rintro ⟨h, hh, hk⟩
    obtain ⟨j, hj, rfl⟩ := List.mem_map.mp hh
    rw [Imported.parseKey_hexKey] at hk
    cases hk
    exact hj
  · intro hk
    exact ⟨_, List.mem_map_of_mem hk, Imported.parseKey_hexKey k⟩

theorem spells_parseKeys {hs : List String} {ks : List SecretKey}
    (h : Imported.parseKeys hs = .ok ks) {k : SecretKey} (hk : k ∈ ks) : SpellsKey hs k := by
  unfold Imported.parseKeys at h
  induction hs generalizing ks with
  | nil =>
    cases h
    cases hk
  | cons x hs ih =>
    rw [List.mapM_cons] at h
    obtain ⟨j, hj, h⟩ := Result.bind_eq_ok.mp h
    obtain ⟨js, hjs, h⟩ := Result.bind_eq_ok.mp h
    cases h
    rcases List.mem_cons.mp hk with rfl | hk
    · exact ⟨x, List.mem_cons_self, hj⟩
    · obtain ⟨y, hy, hyk⟩ := ih hjs hk
      exact ⟨y, List.mem_cons_of_mem _ hy, hyk⟩

/-- The store has the key, at hand or under its seal. -/
def Imported.Has (i : Imported) (k : SecretKey) : Prop :=
  k ∈ i.keys ∨ ∃ b, i.sealed = some b ∧ SpellsKey b.plain k

/-- The file has the key, in clear or under its seal. -/
def Disk.HasKey (d : Disk) (k : SecretKey) : Prop :=
  ∃ f, d.imported = some f ∧ (SpellsKey f.keys k ∨ ∃ b, f.sealed = some b ∧ SpellsKey b.plain k)

/-- The signer has the key, in memory or on disk. -/
def St.HasKey (s : St) (k : SecretKey) : Prop := s.core.imported.Has k ∨ s.disk.HasKey k

@[inherit_doc St.HasKey]
def World.HasKey (w : World) (k : SecretKey) : Prop :=
  (∃ c, w.core = some c ∧ c.imported.Has k) ∨ w.disk.HasKey k

/-- What is written was in memory. -/
theorem has_of_toFile {i : Imported} {d : Disk} {k : SecretKey}
    (h : Disk.HasKey { d with imported := some i.toFile } k) : i.Has k := by
  obtain ⟨f, hf, h⟩ := h
  cases hf
  unfold Imported.toFile at h
  left
  split at h
  · rcases h with ⟨x, hx, -⟩ | ⟨b, hb, h⟩
    · cases hx
    · cases hb
      exact spells_hexKey.mp h
  · rcases h with h | ⟨b, hb, -⟩
    · exact spells_hexKey.mp h
    · cases hb

theorem has_of_lock {i : Imported} {k : SecretKey} (h : i.lock.Has k) : i.Has k := by
  unfold Imported.lock at h
  split at h
  · rcases h with hk | hb
    · cases hk
    · exact .inr hb
  · exact h

/-- Opening a store gives no key that was not under its seal. -/
theorem has_of_unlock {pass : String} {i i' : Imported} {b : Bool}
    (h : i.unlock pass = .ok (b, i')) {k : SecretKey} (hk : i'.Has k) : i.Has k := by
  unfold Imported.unlock at h
  split at h
  · cases h
    exact hk
  · rename_i x hx
    split at h
    · cases h
      exact hk
    · rename_i hexes hopen
      obtain ⟨ks, hks, h⟩ := Result.bind_eq_ok.mp h
      cases h
      obtain ⟨-, rfl⟩ := Sealed.open?_eq_some.mp hopen
      rcases hk with hk | hk
      · exact .inr ⟨x, hx, spells_parseKeys hks hk⟩
      · exact .inr hk

/-- A start reads the keys from the file. -/
theorem has_of_load {C : Crypto} {d : Disk} {i : Imported} (h : Imported.load C d.imported = .ok i)
    {k : SecretKey} (hk : i.Has k) : d.HasKey k := by
  cases hd : d.imported with
  | none =>
    rw [hd] at h
    cases h
    rcases hk with hk | ⟨b, hb, -⟩
    · cases hk
    · cases hb
  | some f =>
    rw [hd] at h
    obtain ⟨-, h⟩ := Result.guard_eq_ok.mp h
    obtain ⟨ks, hks, h⟩ := Result.bind_eq_ok.mp h
    have hstore : ∃ ps, i = ⟨ks, ps, f.sealed, none⟩ := by
      dsimp only at h
      split at h
      all_goals
        obtain ⟨ps, -, h⟩ := Result.bind_eq_ok.mp h
        cases h
        exact ⟨ps, rfl⟩
    obtain ⟨ps, rfl⟩ := hstore
    refine ⟨f, hd, ?_⟩
    rcases hk with hk | hk
    · exact .inl (spells_parseKeys hks hk)
    · exact .inr hk

/-! ## Marks -/

/-- The hash a key is watched under. -/
def keyHash (C : Crypto) (k : SecretKey) : String :=
  Hex.encode (C.hash160 (C.publicKey k).toList).toList

/-- The marker is set, or the hash is watched. -/
def SignOnce.Marked (o : SignOnce) (h : String) : Prop :=
  o.restored = true ∨ (o.pending.get? h).isSome

theorem SignOnce.Marked.congr {o o' : SignOnce} {h : String} (hm : o.Marked h)
    (hr : o'.restored = o.restored) (hp : o'.pending = o.pending) : o'.Marked h := by
  rwa [SignOnce.Marked, hr, hp]

/-- What is saved reads with the marks of memory. -/
theorem marked_toFile (o : SignOnce) (d : Disk) (h : String) :
    (Disk.records { d with once := some o.toFile }).Marked h ↔ o.Marked h := by
  have hpend : ((OrdMap.ofList (o.pending.keys.map fun h ↦ (h, ()))).get? h).isSome ↔
      (o.pending.get? h).isSome := by
    rw [← OrdMap.mem_keys, OrdMap.mem_keys_ofList, ← OrdMap.mem_keys, List.map_map]
    simp [Function.comp_def]
  exact or_congr_right hpend

/-- The mark is in memory and on disk. -/
def St.Marked (s : St) (h : String) : Prop := s.core.once.Marked h ∧ s.disk.records.Marked h

/-- What memory has marked is marked on disk. -/
def MarksSaved (s : St) : Prop := ∀ h, s.core.once.Marked h → s.disk.records.Marked h

/-- What a request does that brings no key: it loses no mark, unless it acknowledges the restore, and
memory does not get ahead of the file. -/
structure Watch (ack : Prop) (s s' : St) : Prop where
  held : ∀ k, s'.HasKey k → s.HasKey k
  kept : ¬ ack → ∀ h, s.Marked h → s'.Marked h
  saved : MarksSaved s → MarksSaved s'

instance (ack : Prop) : Proc.Path (Watch ack) where
  refl _ := ⟨fun _ h ↦ h, fun _ _ h ↦ h, id⟩
  trans hab hbc := ⟨fun k h ↦ hab.held k (hbc.held k h), fun ha h hm ↦ hbc.kept ha h (hab.kept ha h hm),
    fun h ↦ hbc.saved (hab.saved h)⟩

section

variable {ack : Prop} {s s' : St} {α : Type}

theorem St.Marked.of_once {h : String} (hm : s.Marked h) (hcore : s'.core.once = s.core.once)
    (hdisk : s'.disk.once = s.disk.once) : s'.Marked h := by
  have hrec : s'.disk.records = s.disk.records := by simp [Disk.records, hdisk]
  rwa [St.Marked, hcore, hrec]

theorem MarksSaved.of_once (hs : MarksSaved s) (hcore : s'.core.once = s.core.once)
    (hdisk : s'.disk.once = s.disk.once) : MarksSaved s' := by
  have hrec : s'.disk.records = s.disk.records := by simp [Disk.records, hdisk]
  rwa [MarksSaved, hcore, hrec]

theorem Watch.of_once (hheld : ∀ k, s'.HasKey k → s.HasKey k)
    (hcore : s'.core.once = s.core.once) (hdisk : s'.disk.once = s.disk.once) :
    Watch ack s s' :=
  ⟨hheld, fun _ _ hm ↦ hm.of_once hcore hdisk, fun hs ↦ hs.of_once hcore hdisk⟩

theorem watch_core : Moves (Watch ack) core := fun s ↦ Proc.Path.refl s

theorem watch_nextWrite : Moves (Watch ack) nextWrite := by
  intro s
  obtain ⟨w, ws, h, -⟩ := nextWrite_cases s
  rw [h]
  exact .of_once (fun _ hk ↦ hk) rfl rfl

theorem watch_modifyCore {f : Core → Core} (honce : ∀ c, (f c).once = c.once)
    (himported : ∀ c k, (f c).imported.Has k → c.imported.Has k) :
    Moves (Watch ack) (modifyCore f) := fun s ↦
  .of_once (fun k ↦ Or.imp_left (himported s.core k)) (honce s.core) rfl

/-- A file whose keys are those of memory, or which is none of the two. -/
theorem watch_replaceFile {f : Disk → Disk} (honce : ∀ d, (f d).once = d.once) {s : St}
    (hkeys : ∀ k, (f s.disk).HasKey k → s.HasKey k) : Watch ack s (replaceFile f s).2 := by
  have hnew (ws : List WriteOutcome) : Watch ack s { s with disk := f s.disk, writes := ws } :=
    .of_once (fun k hk ↦ hk.elim .inl (hkeys k)) rfl (honce s.disk)
  have hold (ws : List WriteOutcome) : Watch ack s { s with writes := ws } :=
    .of_once (fun _ hk ↦ hk) rfl rfl
  obtain ⟨ws, -, h | ⟨-, ⟨e, h⟩ | ⟨d, rfl | rfl, h⟩⟩⟩ := replaceFile_cases f s
  · rw [h]
    exact hnew ws
  · rw [h]
    exact hold ws
  · rw [h]
    exact hnew ws
  · rw [h]
    exact hold ws

theorem watch_replaceOther {f : Disk → Disk} (honce : ∀ d, (f d).once = d.once)
    (himported : ∀ d, (f d).imported = d.imported) : Moves (Watch ack) (replaceFile f) := by
  intro s
  refine watch_replaceFile honce fun k hk ↦ .inr ?_
  rwa [Disk.HasKey, himported] at hk

theorem watch_saveImported : Moves (Watch ack) saveImported := fun s ↦
  watch_replaceFile (f := fun d ↦ { d with imported := some s.core.imported.toFile })
    (fun _ ↦ rfl) fun _ hk ↦ .inl (has_of_toFile hk)

theorem watch_addPqImported (scheme : UInt8) (seed : Bytes) :
    Moves (Watch ack) (addPqImported scheme seed) := by
  refine watch_core.bind fun c ↦ ?_
  split
  · exact .pure _
  · refine Moves.bind (watch_modifyCore (fun _ ↦ rfl) fun _ _ hk ↦ hk) fun _ ↦ Moves.bind
      (watch_core.bind fun _ ↦ watch_replaceOther (fun _ ↦ rfl) fun _ ↦ rfl) fun x ↦ ?_
    cases x with
    | error e => exact Moves.bind (watch_modifyCore (fun _ ↦ rfl) fun _ _ hk ↦ hk) fun _ ↦ .pure _
    | ok => exact watch_core.bind fun _ ↦ .pure _

theorem Watch.of_idle (h : Idle s s') : Watch ack s s' := by
  rcases h.core with hc | ⟨-, hc⟩
  · refine .of_once (fun k hk ↦ ?_) (by rw [hc]) (by rw [h.disk])
    rwa [St.HasKey, hc, h.disk] at hk
  · refine .of_once (fun k hk ↦ ?_) (by rw [hc]; rfl) (by rw [h.disk])
    rw [St.HasKey, hc, h.disk] at hk
    exact Or.imp_left has_of_lock hk

instance : Placid (fun _ ↦ Watch ack) where
  idle := .of_idle
  caught h := h
  nextWrite := watch_nextWrite
  publicCache _ := watch_replaceOther (fun _ ↦ rfl) fun _ ↦ rfl
  addPqImported := watch_addPqImported

/-! ## A change of the sign-once store -/

/-- How a change of the store ends: memory has it, and so has the file, unless the write failed or the
process ended. -/
theorem changeOnce_marks (f : SignOnce → SignOnce) (s : St) :
    (changeOnce f s).2.core = { s.core with once := f s.core.once } ∧
      (changeOnce f s).2.disk.imported = s.disk.imported ∧
      ((∀ h, (changeOnce f s).2.disk.records.Marked h ↔ (f s.core.once).Marked h) ∨
        (changeOnce f s).2.disk = s.disk ∧
          (s.WriteFails ∨ (changeOnce f s).1 = .error .crash)) := by
  rw [changeOnce_cases]
  obtain ⟨ws, -, h | ⟨-, ⟨e, h⟩ | ⟨d, rfl | rfl, h⟩⟩⟩ := replaceFile_cases
    (fun d ↦ { d with once := some (f s.core.once).toFile })
    { s with core := { s.core with once := f s.core.once } }
  · rw [h]
    exact ⟨rfl, rfl, .inl (marked_toFile _ s.disk)⟩
  · have hfail := (replaceFile_eq_refused h).1
    rw [h]
    exact ⟨rfl, rfl, .inr ⟨rfl, .inl hfail⟩⟩
  · rw [h]
    exact ⟨rfl, rfl, .inl (marked_toFile _ s.disk)⟩
  · rw [h]
    exact ⟨rfl, rfl, .inr ⟨rfl, .inr rfl⟩⟩

theorem held_changeOnce (f : SignOnce → SignOnce) (s : St) (k : SecretKey)
    (hk : (changeOnce f s).2.HasKey k) : s.HasKey k := by
  obtain ⟨hcore, himported, -⟩ := changeOnce_marks f s
  rwa [St.HasKey, hcore, Disk.HasKey, himported] at hk

/-- A change that loses no mark loses none on disk. -/
theorem kept_changeOnce {f : SignOnce → SignOnce} {s : St} {h : String}
    (hf : s.core.once.Marked h → (f s.core.once).Marked h) (hm : s.Marked h) :
    (changeOnce f s).2.Marked h := by
  obtain ⟨hcore, -, hdisk | ⟨hdisk, -⟩⟩ := changeOnce_marks f s
  · rw [St.Marked, hcore, hdisk]
    exact ⟨hf hm.1, hf hm.1⟩
  · rw [St.Marked, hcore, hdisk]
    exact ⟨hf hm.1, hm.2⟩

/-- A change that brings no mark keeps memory behind the file, however the write ends. -/
theorem saved_changeOnce {f : SignOnce → SignOnce} {s : St}
    (hf : ∀ h, (f s.core.once).Marked h → s.core.once.Marked h) (hs : MarksSaved s) :
    MarksSaved (changeOnce f s).2 := by
  intro h hm
  obtain ⟨hcore, -, hdisk | ⟨hdisk, -⟩⟩ := changeOnce_marks f s
  · rw [hcore] at hm
    exact (hdisk h).mpr hm
  · rw [hcore] at hm
    rw [hdisk]
    exact hs h (hf h hm)

/-- A change of the records alone. -/
theorem watch_records {f : SignOnce → SignOnce} (hr : ∀ o, (f o).restored = o.restored)
    (hp : ∀ o, (f o).pending = o.pending) : Moves (Watch ack) (changeOnce f) := fun s ↦
  ⟨held_changeOnce f s, fun _ _ hm ↦ kept_changeOnce (fun h ↦ h.congr (hr _) (hp _)) hm,
    saved_changeOnce fun _ h ↦ h.congr (hr _).symm (hp _).symm⟩

theorem watch_importOnce (rs : List SignedRecord) : Moves (Watch ack) (importOnce rs) := by
  refine watch_core.bind fun c ↦ ?_
  cases c.once.importCounts rs with
  | error e => exact .pure _
  | ok n =>
    refine (watch_records (fun o ↦ (insertAll_marks o rs).1) fun o ↦ (insertAll_marks o rs).2).bind
      fun x ↦ ?_
    cases x with
    | error e => exact .pure _
    | ok => exact .pure _

theorem watch_acknowledge : Moves (Watch True) acknowledge := fun s ↦ by
  refine ⟨held_changeOnce _ s, fun hno ↦ absurd trivial hno, saved_changeOnce fun h hm ↦ ?_⟩
  rcases hm with hm | hm
  · cases hm
  · exact .inr hm

theorem watch_recordGuard (r : Attested) : Moves (Watch ack) (recordGuard r) := by
  refine watch_nextWrite.bind fun w ↦ Moves.bind (fun s ↦ .of_once (fun _ hk ↦ hk) rfl rfl)
    fun _ ↦ Moves.bind (fun s ↦ .of_once (fun _ hk ↦ hk) rfl rfl) fun _ ↦ ?_
  cases w with
  | done => exact .pure _
  | failed e kept => exact .pure _
  | cut kept => exact .throw _

end

/-! ## Requests that bring no key -/

section

variable {ack : Prop} (C : Crypto) (L : Sapling.Lib)

theorem watch_encryptKs (pass : String) (cache : PublicBundle) :
    Moves (Watch ack) (encryptKs pass cache) := by
  refine watch_core.bind fun c ↦ ?_
  dsimp only
  split
  · exact .pure _
  · refine Moves.bind (watch_replaceOther (fun _ ↦ rfl) fun _ ↦ rfl) fun x ↦ ?_
    cases x with
    | error e => exact .pure _
    | ok =>
      refine Moves.bind (watch_replaceOther (fun _ ↦ rfl) fun _ ↦ rfl) fun y ↦ ?_
      cases y with
      | error e => exact .pure _
      | ok => exact Moves.bind (watch_modifyCore (fun _ ↦ rfl) fun _ _ hk ↦ hk) fun _ ↦ .pure _

theorem watch_encryptImported (pass : String) : Moves (Watch ack) (encryptImported pass) := by
  refine Moves.bind (watch_modifyCore (fun _ ↦ rfl) fun c k hk ↦ ?_) fun _ ↦ watch_saveImported
  rcases hk with hk | ⟨b, hb, x, hx, -⟩
  · exact .inl hk
  · cases hb
    cases hx

theorem watch_doLock : Moves (Watch ack) doLock :=
  watch_modifyCore (fun _ ↦ rfl) fun _ _ hk ↦ has_of_lock hk

theorem watch_encrypt (r : EncryptRequest) : Moves (Watch ack) (encrypt C L r) :=
  watch_core.bind fun _ ↦ .ite (ends_no (R := fun _ ↦ Watch ack) _ _) <|
    .ite (ends_no (R := fun _ ↦ Watch ack) _ _) <|
      Moves.bind (ends_publicOf (R := fun _ ↦ Watch ack) C L _) fun _ ↦
        Moves.bind (ends_orRefuse (R := fun _ ↦ Watch ack) _ _ _) fun _ ↦
          watch_core.bind fun _ ↦ (watch_encryptImported _).bind fun _ ↦
            Moves.bind (ends_orRefuse (R := fun _ ↦ Watch ack) _ _ _) fun _ ↦
              (watch_encryptKs _ _).bind fun _ ↦
                Moves.bind (ends_orRefuse (R := fun _ ↦ Watch ack) _ _ _) fun _ ↦
                  watch_doLock.bind fun _ ↦ .pure _

theorem watch_unlock (r : UnlockRequest) : Moves (Watch ack) (unlock C r) := by
  intro s
  rcases unlock_cases C r s with ⟨e, h⟩ | ⟨-, ⟨e, h⟩ | ⟨e, h⟩ | ⟨i, hi, ⟨e, h⟩ | ⟨a, k, till, h⟩⟩⟩
  · rw [h]
    exact Proc.Path.refl s
  · rw [h]
    exact .of_once (fun _ hk ↦ hk) rfl rfl
  · rw [h]
    exact .of_once (fun _ ↦ Or.imp_left has_of_lock) rfl rfl
  · rw [h]
    exact .of_once (fun _ ↦ Or.imp_left (has_of_unlock hi)) rfl rfl
  · rw [h]
    exact .of_once (fun _ ↦ Or.imp_left (has_of_unlock hi)) rfl rfl

/-- A request that brings keys, or tells of members that joined. -/
def BringsMarks : Request → Prop
  | .importKey _ | .importDump _ | .joinsSeen _ => True
  | _ => False

/-- Every other request brings no key and loses no mark. -/
theorem watch_answer (r : Request) (hr : ¬ BringsMarks r) :
    Moves (Watch (r = .acknowledgeRestore)) (answer C L r) := by
  have hguard : ∀ x, Ends (fun _ ↦ Watch (r = .acknowledgeRestore)) (recordGuard x) :=
    watch_recordGuard
  refine ends_answer_of (R := fun _ ↦ Watch (r = .acknowledgeRestore)) C L r
    (fun x _ ↦ ends_signSet C (ends_signOnce (fun _ ↦ ?_) x))
    (fun x _ ↦ ends_signAttestation C (ends_guardedAttestation C hguard) x)
    (fun x _ ↦ ends_cancelCosign C (ends_guardedAttestation C hguard) x)
    ?_ ?_ (fun x _ ↦ watch_importOnce x) ?_ ?_ (fun x _ ↦ watch_encrypt C L x)
    fun x _ ↦ watch_unlock C x
  · exact watch_records (fun _ ↦ rfl) fun _ ↦ rfl
  · intro h
    rw [eq_true h]
    exact watch_acknowledge
  · rintro x rfl
    exact absurd trivial hr
  · rintro x rfl
    exact absurd trivial hr
  · rintro x rfl
    exact absurd trivial hr

end

/-! ## Marking a key -/

section

variable {s s' : St} {h : String}

/-- A save that does not fail has the marks of memory on disk. -/
theorem saved_of_done {f : SignOnce → SignOnce} (hw : s.writes.headD .done = .done) :
    ∃ ws, (ws = s.writes ∨ ws = s.writes.tail) ∧ changeOnce f s = (.ok (.ok ()),
      ⟨{ s.core with once := f s.core.once }, { s.disk with once := some (f s.core.once).toFile },
        s.env, ws⟩) := by
  rw [changeOnce_cases]
  cases hws : s.writes with
  | nil =>
    refine ⟨[], .inl rfl, ?_⟩
    simp [replaceFile, nextWrite, Proc.bind_apply, modifyDisk]
  | cons w ws =>
    rw [hws] at hw
    cases hw
    refine ⟨ws, .inr rfl, ?_⟩
    simp [replaceFile, nextWrite, Proc.bind_apply, modifyDisk]

/-- What a mark that is written does. -/
structure MarkedBy (h : String) (s s' : St) : Prop where
  marked : s'.Marked h
  kept : ∀ g, s.Marked g → s'.Marked g
  saved : MarksSaved s'
  held : ∀ k, s'.HasKey k → s.HasKey k
  writes : s'.writes = s.writes ∨ s'.writes = s.writes.tail

/-- A change that marks a hash, saved. -/
theorem markedBy_changeOnce {f : SignOnce → SignOnce} (hw : s.writes.headD .done = .done)
    (hf : (f s.core.once).Marked h) (hk : ∀ g, s.core.once.Marked g → (f s.core.once).Marked g) :
    ∃ s', changeOnce f s = (.ok (.ok ()), s') ∧ MarkedBy h s s' := by
  obtain ⟨ws, hws, hrun⟩ := saved_of_done (f := f) hw
  have hdisk := marked_toFile (f s.core.once) s.disk
  refine ⟨_, hrun, ⟨hf, (hdisk h).mpr hf⟩, ?_, ?_, ?_, hws⟩
  · intro g hg
    exact ⟨hk g hg.1, (hdisk g).mpr (hk g hg.1)⟩
  · intro g hg
    exact (hdisk g).mpr hg
  · intro k hk
    exact hk

/-- `mark_restored`, where the write does not fail and memory is not ahead of the file. -/
theorem markedBy_markRestored (hs : MarksSaved s) (hw : s.writes.headD .done = .done) :
    ∃ s', markRestored s = (.ok (.ok ()), s') ∧ MarkedBy h s s' := by
  by_cases hr : s.core.once.restored
  · refine ⟨s, ?_, ⟨.inl hr, hs h (.inl hr)⟩, fun _ hg ↦ hg, hs, fun _ hk ↦ hk, .inl rfl⟩
    simp [markRestored, Proc.bind_apply, core, hr]
  · have hrun : markRestored s = changeOnce (fun o ↦ { o with restored := true }) s := by
      simp [markRestored, Proc.bind_apply, core, hr]
    rw [hrun]
    exact markedBy_changeOnce hw (.inl rfl) fun _ _ ↦ .inl rfl

/-- `key_imported` likewise. -/
theorem markedBy_keyImported (hs : MarksSaved s) (hw : s.writes.headD .done = .done)
    (members : Option (List String)) :
    ∃ s', keyImported h members s = (.ok (.ok ()), s') ∧ MarkedBy h s s' := by
  by_cases hm : members.any fun m ↦ !m.contains h
  · by_cases hp : (s.core.once.pending.get? h).isSome
    · refine ⟨s, ?_, ⟨.inr hp, hs h (.inr hp)⟩, fun _ hg ↦ hg, hs, fun _ hk ↦ hk, .inl rfl⟩
      rw [keyImported, if_pos hm]
      simp [Proc.bind_apply, core, hp]
    · have hrun : keyImported h members s =
          changeOnce (fun o ↦ { o with pending := o.pending.insert h () }) s := by
        rw [keyImported, if_pos hm]
        simp [Proc.bind_apply, core, hp]
      rw [hrun]
      refine markedBy_changeOnce hw (.inr ?_) fun g hg ↦ hg.imp_right fun hg ↦ ?_
      · simp
      · rw [OrdMap.get?_insert]
        split
        · rfl
        · exact hg
  · have hrun : keyImported h members s = markRestored s := by
      rw [keyImported, if_neg hm]
    rw [hrun]
    exact markedBy_markRestored hs hw

end

/-! ## Adding a key -/

/-- These keys are in the store, or it is locked and takes none. -/
def Ready (ks : List SecretKey) (s : St) : Prop :=
  (∀ k ∈ ks, k ∈ s.core.imported.keys) ∨
    s.core.imported.sealed.isSome ∧ s.core.imported.pass.isNone

/-- The process does not end in a write. -/
def St.Lives (s : St) : Prop := ∀ n, .cut n ∉ s.writes

section

variable (C : Crypto) {s s' : St}

theorem replaceFile_eq_error {f : Disk → Disk} {e : Stop}
    (h : replaceFile f s = (.error e, s')) : ¬ s.Lives := by
  cases hw : s.writes with
  | nil => simp [replaceFile, nextWrite, hw, Proc.bind_apply, modifyDisk] at h
  | cons w ws =>
    cases w with
    | done => simp [replaceFile, nextWrite, hw, Proc.bind_apply, modifyDisk] at h
    | failed e' kept => simp [replaceFile, nextWrite, hw, Proc.bind_apply] at h
    | cut kept => exact fun hlives ↦ hlives kept (by rw [hw]; exact List.mem_cons_self)

theorem replaceFile_eq_done {f : Disk → Disk} (h : replaceFile f s = (.ok (.ok ()), s')) :
    s.writes.headD .done = .done ∧ s'.writes = s.writes.tail := by
  cases hw : s.writes with
  | nil =>
    simp only [replaceFile, nextWrite, hw, Proc.bind_apply, modifyDisk, Proc.modify_apply,
      Proc.pure_apply] at h
    cases h
    exact ⟨rfl, rfl⟩
  | cons w ws =>
    cases w with
    | done =>
      simp only [replaceFile, nextWrite, hw, Proc.bind_apply, modifyDisk, Proc.modify_apply,
        Proc.pure_apply] at h
      cases h
      exact ⟨rfl, rfl⟩
    | failed e kept => simp [replaceFile, nextWrite, hw, Proc.bind_apply] at h
    | cut kept =>
      by_cases hk : kept = 0
      · simp [replaceFile, nextWrite, hw, Proc.bind_apply, hk] at h
      · simp [replaceFile, nextWrite, hw, Proc.bind_apply, hk, modifyDisk] at h

/-- How an `add` ends in a process that lives on: the key was there, it is refused and the store is
as before, or it is new and the only one. -/
theorem addImported_lives (key : SecretKey) (hlives : s.Lives) :
    (key ∈ s.core.imported.keys ∧ ∃ n, addImported C key s = (.ok (.ok (n, false)), s)) ∨
      (∃ e ws, ws <:+ s.writes ∧ addImported C key s = (.ok (.error e), { s with writes := ws })) ∨
      ¬ Ready [key] s ∧ s.writes.headD .done = .done ∧ ∃ n, addImported C key s =
        (.ok (.ok (n, true)), ⟨s.core.withImported (s.core.imported.push C key),
          { s.disk with imported := some (s.core.imported.push C key).toFile }, s.env,
          s.writes.tail⟩) := by
  cases hfind : s.core.imported.keys.findIdx? (· = key) with
  | some n =>
    obtain ⟨hlt, heq, -⟩ := List.findIdx?_eq_some_iff_getElem.mp hfind
    refine .inl ⟨?_, n, ?_⟩
    · rw [← of_decide_eq_true heq]
      exact List.getElem_mem hlt
    · simp only [addImported, Proc.bind_apply, core, hfind, Proc.pure_apply]
  | none =>
    have hnew : key ∉ s.core.imported.keys := by
      intro hmem
      simpa using List.findIdx?_eq_none_iff.mp hfind key hmem
    right
    by_cases hlocked : s.core.imported.sealed.isSome ∧ s.core.imported.pass.isNone
    · refine .inl ⟨"the wallet is locked", s.writes, List.suffix_refl _, ?_⟩
      simp only [addImported, Proc.bind_apply, core, hfind, if_pos hlocked, Proc.pure_apply]
    · have hadd := addImported_of_new (C := C) hfind hlocked
      obtain ⟨ws, hws, h | ⟨-, ⟨e, h⟩ | ⟨d, -, h⟩⟩⟩ := replaceFile_cases
        (fun d ↦ { d with imported := some (s.core.imported.push C key).toFile })
        { s with core := s.core.withImported (s.core.imported.push C key) }
      · obtain ⟨hhead, htail⟩ := replaceFile_eq_done h
        cases htail
        rw [h] at hadd
        refine .inr ⟨?_, hhead, _, hadd⟩
        rintro (hmem | hlock)
        · exact hnew (hmem key List.mem_cons_self)
        · exact hlocked hlock
      · rw [h] at hadd
        refine .inl ⟨e, ws, hws, ?_⟩
        -- the pushed key is taken back
        have hback : (s.core.withImported (s.core.imported.push C key)).withImported
            (s.core.imported.push C key).pop = s.core := by
          simp [Core.withImported, Imported.push, Imported.pop]
        rw [hadd]
        exact congrArg (fun c ↦ (_, St.mk c s.disk s.env ws)) hback
      · exact (replaceFile_eq_error h hlives).elim

theorem has_of_push {key k : SecretKey} {i : Imported} (hk : (i.push C key).Has k) :
    i.Has k ∨ k = key := by
  rcases hk with hk | hk
  · rcases List.mem_append.mp hk with hk | hk
    · exact .inl (.inl hk)
    · exact .inr (List.mem_singleton.mp hk)
  · exact .inl (.inr hk)

/-- Behind an `add` the key is the only one that came in. -/
theorem hasKey_push {key k : SecretKey} {ws : List WriteOutcome}
    (hk : St.HasKey ⟨s.core.withImported (s.core.imported.push C key),
      { s.disk with imported := some (s.core.imported.push C key).toFile }, s.env, ws⟩ k) :
    s.HasKey k ∨ k = key :=
  (has_of_push C (hk.elim id has_of_toFile)).imp_left .inl

end

end Yew.Signer
