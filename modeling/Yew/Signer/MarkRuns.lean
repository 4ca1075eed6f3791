import Yew.Signer.DumpLines

/-!
# Marks over runs

A key is written first and its mark afterwards, into another file, and a second import finds the key
and marks nothing.  So a mark that is missed once is missed for good.

Marks are asked for on disk; memory can be ahead of the file only where a write of marks fails.

The marks are kept by `yewd/signer/src/signonce.rs`; the imports that have to make them are in
`walletio.rs`.
-/

namespace Yew.Signer

open Tx Keys Proto Proc SignOnce

section

variable {s s' : St}

/-! ## The marks of a dump -/

/-- The number of new keys of a list. -/
def newKeys (es : List (ImportedKey × Option String)) : Nat := es.countP (·.1.new)

variable (C : Crypto)

/-- What marking the new keys does. -/
structure AllMarked (es : List (ImportedKey × Option String)) (s s' : St) : Prop where
  marked : ∀ e ∈ es, e.1.new = true → ∀ k, e.1.pubkey = Imported.hexPub (C.publicKey k) →
    s'.Marked (keyHash C k)
  kept : ∀ g, s.Marked g → s'.Marked g
  saved : MarksSaved s'
  held : ∀ k, s'.HasKey k → s.HasKey k

/-- The mark of a new key is under its hash. -/
theorem markDumped_of_new {e : ImportedKey × Option String} (hnew : e.1.new = true) :
    ∃ hash, (∀ k, e.1.pubkey = Imported.hexPub (C.publicKey k) → hash = keyHash C k) ∧
      ∀ members, markDumped C members e = keyImported hash members >>=
        orRefuse Refuse.failed ("cannot write the vault sign-once restore marker: " ++ ·) := by
  cases hdec : Hex.decode e.1.pubkey with
  | none =>
    refine ⟨"", fun k hk ↦ ?_, fun members ↦ ?_⟩
    · rw [hk, Imported.hexPub, Hex.decode_encode] at hdec
      cases hdec
    · simp only [markDumped, if_pos hnew, hdec]
  | some p =>
    refine ⟨Hex.encode (C.hash160 p).toList, fun k hk ↦ ?_, fun members ↦ ?_⟩
    · rw [hk, Imported.hexPub, Hex.decode_encode] at hdec
      cases hdec
      rfl
    · simp only [markDumped, if_pos hnew, hdec]

/-- The mark of one key, where its write does not fail. -/
theorem allMarked_one (members : Option (List String)) (e : ImportedKey × Option String)
    (hs : MarksSaved s) (hw : e.1.new = true → s.writes.headD .done = .done) :
    ∃ s', markDumped C members e s = (.ok (), s') ∧ AllMarked C [e] s s' ∧
      (s'.writes = s.writes ∨ e.1.new = true ∧ s'.writes = s.writes.tail) := by
  by_cases hnew : e.1.new = true
  · obtain ⟨hash, hhash, hmark⟩ := markDumped_of_new C hnew
    obtain ⟨s', hrun, hm⟩ := markedBy_keyImported (h := hash) hs (hw hnew) members
    refine ⟨s', ?_, ⟨?_, hm.kept, hm.saved, hm.held⟩, hm.writes.imp_right fun h ↦ ⟨hnew, h⟩⟩
    · rw [hmark, Proc.bind_apply, hrun]
      rfl
    · intro x hx _ k hk
      rw [List.mem_singleton.mp hx] at hk
      rw [← hhash k hk]
      exact hm.marked
  · refine ⟨s, ?_, ⟨?_, fun _ h ↦ h, hs, fun _ h ↦ h⟩, .inl rfl⟩
    · rw [markDumped, if_neg hnew]
      rfl
    · intro x hx hxnew
      rw [List.mem_singleton.mp hx] at hxnew
      exact absurd hxnew hnew

/-- Every new key is marked, where none of the writes fails. -/
theorem allMarked_forEach (members : Option (List String)) (es : List (ImportedKey × Option String))
    (hs : MarksSaved s) (hw : ∀ w ∈ s.writes.take (newKeys es), w = .done) :
    ∃ xs s', Proc.forEach (markDumped C members) es s = (.ok xs, s') ∧ AllMarked C es s s' := by
  induction es generalizing s with
  | nil =>
    refine ⟨[], s, rfl, ?_, fun _ h ↦ h, hs, fun _ h ↦ h⟩
    intro e he
    cases he
  | cons e es ih =>
    have hhead : e.1.new = true → s.writes.headD .done = .done := by
      intro hnew
      rw [newKeys, List.countP_cons_of_pos (by exact hnew)] at hw
      cases hws : s.writes with
      | nil => rfl
      | cons w ws =>
        rw [hws] at hw
        exact hw w List.mem_cons_self
    obtain ⟨s₁, hrun, hone, hwrites⟩ := allMarked_one C members e hs hhead
    have hw₁ : ∀ w ∈ s₁.writes.take (newKeys es), w = .done := by
      intro w hmem
      apply hw
      rcases hwrites with h | ⟨hnew, h⟩
      · rw [h] at hmem
        refine List.take_subset_take_left _ ?_ hmem
        rw [newKeys, newKeys, List.countP_cons]
        exact Nat.le_add_right _ _
      · rw [newKeys, List.countP_cons_of_pos (by exact hnew)]
        rw [h] at hmem
        cases hws : s.writes with
        | nil =>
          rw [hws] at hmem
          simp at hmem
        | cons x ws =>
          rw [hws] at hmem
          exact List.mem_cons_of_mem _ hmem
    obtain ⟨xs, s₂, hrest, hall⟩ := ih hone.saved hw₁
    refine ⟨() :: xs, s₂, ?_, ?_, fun g hg ↦ hall.kept g (hone.kept g hg), hall.saved,
      fun k hk ↦ hone.held k (hall.held k hk)⟩
    · rw [Proc.forEach, Proc.bind_apply, hrun]
      dsimp only
      rw [Proc.bind_apply, hrest]
      rfl
    · intro x hx hnew k hk
      rcases List.mem_cons.mp hx with rfl | hx
      · exact hall.kept _ (hone.marked x List.mem_cons_self hnew k hk)
      · exact hall.marked x hx hnew k hk

/-! ## What an import does -/

/-- What a request does to keys and marks: a key that came in is marked, no mark is lost, and unless
the process ended memory is not ahead of the file. -/
structure Brought (o : Option Stop) (s s' : St) : Prop where
  held : ∀ k, s'.HasKey k → s.HasKey k ∨ s'.Marked (keyHash C k)
  kept : ∀ h, s.Marked h → s'.Marked h
  saved : o ≠ some .crash → MarksSaved s'

variable {C}

theorem Watch.brought {o : Option Stop} (h : Watch False s s') (hs : MarksSaved s) :
    Brought C o s s' :=
  ⟨fun k hk ↦ .inl (h.held k hk), h.kept id, fun _ ↦ h.saved hs⟩

theorem Aside.brought {o : Option Stop} (h : Aside s s') (hs : MarksSaved s) :
    Brought C o s s' := Watch.brought (.of_once h.held h.once h.disk) hs

/-- The mark of a single key is not lost: its write does not fail, and the process does not end. -/
def KeySteady (s : St) : Prop := s.Lives ∧ ∀ e kept ws, s.writes ≠ .done :: .failed e kept :: ws

theorem KeySteady.second (h : KeySteady s) (hd : s.writes.headD .done = .done) :
    s.writes.tail.headD .done = .done := by
  obtain ⟨hlives, hfail⟩ := h
  cases hw : s.writes with
  | nil => rfl
  | cons w ws =>
    rw [hw] at hd
    obtain rfl : w = .done := hd
    cases ws with
    | nil => rfl
    | cons x ws =>
      cases x with
      | done => rfl
      | failed e kept => exact absurd hw (hfail e kept ws)
      | cut n => exact absurd (by rw [hw]; simp) (hlives n)

theorem importKey_brought (r : ImportKeyRequest) (hs : MarksSaved s) (hsteady : KeySteady s) :
    Brought C (stopOf (importKey C r s).1) s (importKey C r s).2 := by
  have hidle {α : Type} {x : M α} (h : Quiet x) : Brought C (stopOf (x s).1) s (x s).2 :=
    Aside.brought (.of_idle (h.moves s)) hs
  unfold importKey
  rw [Proc.bind_apply]
  cases hkeys : keys s with
  | mk x s₀ =>
    cases x with
    | error e =>
      have h := hidle quiet_keys
      rwa [hkeys] at h
    | ok ring =>
      obtain ⟨rfl, -⟩ := keys_eq_ok hkeys
      dsimp only
      rw [Proc.bind_apply]
      simp only [core]
      rw [Proc.bind_apply]
      cases decodeWif C s₀.core.network (Text.trim r.wif) with
      | error e => exact Aside.brought (Proc.Path.refl _) hs
      | ok key =>
        have hok : orRefuse Refuse.keyNotHeld (fun _ ↦ "Invalid private key encoding")
            (Except.ok key) s₀ = (.ok key, s₀) := rfl
        rw [hok]
        dsimp only
        rw [Proc.bind_apply]
        rcases addImported_lives C key hsteady.1 with ⟨-, n, h⟩ | ⟨e, ws, hws, h⟩ |
          ⟨hnew, hdone, n, h⟩
        · rw [h]
          exact Aside.brought (Proc.Path.refl _) hs
        · rw [h]
          exact Aside.brought (.of_imported rfl rfl rfl rfl rfl hws) hs
        · obtain ⟨s₂, hrun, hm⟩ := markedBy_keyImported (h := keyHash C key)
            (s := ⟨s₀.core.withImported (s₀.core.imported.push C key),
              { s₀.disk with imported := some (s₀.core.imported.push C key).toFile }, s₀.env,
              s₀.writes.tail⟩) hs (hsteady.second hdone) r.members
          have hmark : markImported C (C.publicKey key) r.members
              ⟨s₀.core.withImported (s₀.core.imported.push C key),
                { s₀.disk with imported := some (s₀.core.imported.push C key).toFile }, s₀.env,
                s₀.writes.tail⟩ = (.ok (), s₂) := by
            rw [markImported, Proc.bind_apply, show Hex.encode (C.hash160
              (C.publicKey key).toList).toList = keyHash C key from rfl, hrun]
            rfl
          rw [h]
          have hret : ∀ y, orRefuse Refuse.failed ("Error adding key to wallet: " ++ ·)
              (Except.ok (n, true)) y = (.ok (n, true), y) := fun _ ↦ rfl
          dsimp only
          rw [Proc.bind_apply, hret]
          dsimp only
          rw [if_pos rfl, Proc.bind_apply, hmark]
          refine ⟨fun k hk ↦ ?_, fun g hg ↦ hm.kept g hg, fun _ ↦ hm.saved⟩
          rcases hasKey_push C (hm.held k hk) with hk | rfl
          · exact .inl hk
          · exact .inr hm.marked

/-- No mark of a dump is lost: the process does not end, no line in which the import ends stands
behind one with a key the store does not have, and no write of the marks fails. -/
def DumpSteady (C : Crypto) (L : Sapling.Lib) (r : ImportDumpRequest) (s : St) : Prop :=
  s.Lives ∧ ∀ text, s.env.files r.path = some text →
    CleanDump C s.core.network s.core.imported.keys (lines text.toList) ∧
      ∀ d s₁, importLines C L r.zkeys .empty (lines text.toList) s = (.ok d, s₁) →
        ∀ w ∈ s₁.writes.take (newKeys d.out.keys), w = .done

theorem watch_importDumped (rs : List SignedRecord) : Moves (Watch False) (importDumped rs) :=
  .ite (.pure _) (Moves.bind (ends_importRecords (R := fun _ ↦ Watch False) (watch_importOnce rs))
    fun _ ↦ .pure _)

theorem importDump_brought (L : Sapling.Lib) (r : ImportDumpRequest) (hs : MarksSaved s)
    (hsteady : DumpSteady C L r s) :
    Brought C (stopOf (importDump C L r s).1) s (importDump C L r s).2 := by
  unfold importDump
  rw [Proc.bind_apply]
  cases hkeys : keys s with
  | mk x s₀ =>
    cases x with
    | error e =>
      have h := quiet_keys.moves s
      rw [hkeys] at h
      exact Aside.brought (.of_idle h) hs
    | ok ring =>
      obtain ⟨rfl, -⟩ := keys_eq_ok hkeys
      dsimp only
      rw [Proc.bind_apply, Proc.get_apply]
      dsimp only
      rw [Proc.bind_apply]
      cases hfile : s₀.env.files r.path with
      | none => exact Aside.brought (Proc.Path.refl _) hs
      | some text =>
        obtain ⟨hclean, hmarks⟩ := hsteady.2 text hfile
        have hok : orElse Refuse.malformed ("Cannot open wallet dump file " ++ r.path ++
            ": No such file or directory") (some text) s₀ = (.ok text, s₀) := rfl
        rw [hok]
        dsimp only
        rw [Proc.bind_apply]
        rcases linesEnd (d := .empty) L hsteady.1 hclean (.inl fun _ hk ↦ hk) r.zkeys with
          ⟨d, s₁, h, hdone⟩ | ⟨e, s₁, h, -, haside⟩
        · obtain ⟨xs, s₂, hrun, hall⟩ := allMarked_forEach C r.members d.out.keys
            (hs.of_once hdone.once hdone.disk) (hmarks d s₁ h)
          rw [h]
          dsimp only
          rw [Proc.bind_apply, hrun]
          dsimp only
          have hlast : Moves (Watch False) (importDumped d.records >>= fun records ↦
              if d.bad then no Refuse.failed "Error adding some keys to wallet"
              else return { d.out with records }) :=
            (watch_importDumped d.records).bind fun _ ↦
              .ite (ends_no (R := fun _ ↦ Watch False) _ _) (.pure _)
          have hwatch := hlast s₂
          refine ⟨fun k hk ↦ ?_, fun g hg ↦ ?_, fun _ ↦ hwatch.saved hall.saved⟩
          · rcases hdone.held k (hall.held k (hwatch.held k hk)) with hk | ⟨e, he, hnew, hpub⟩
            · exact .inl hk
            · exact .inr (hwatch.kept id _ (hall.marked e he hnew k hpub))
          · exact hwatch.kept id g (hall.kept g (hg.of_once hdone.once hdone.disk))
        · rw [h]
          exact haside.brought hs

/-- The marks of `joins_seen` are not lost: where it changes them, its write does not fail. -/
def JoinsSteady (hashes : List String) (s : St) : Prop :=
  s.WriteFails → ∀ h ∈ hashes, s.core.once.pending.get? h = none

theorem joinsSeen_brought {hashes : List String} (hs : MarksSaved s)
    (hsteady : JoinsSteady hashes s) :
    Brought C (stopOf (joinsSeen hashes s).1) s (joinsSeen hashes s).2 := by
  by_cases hlen : (s.core.once.pending.filter fun h ↦ !hashes.contains h).keys.length =
      s.core.once.pending.keys.length
  · have hrun : joinsSeen hashes s = (.ok (.ok ()), s) := by
      simp only [joinsSeen, Proc.bind_apply, core, if_pos hlen, Proc.pure_apply]
    rw [hrun]
    exact Watch.brought (Proc.Path.refl _) hs
  · let f : SignOnce → SignOnce := fun o ↦ { o with
      pending := s.core.once.pending.filter fun h ↦ !hashes.contains h, restored := true }
    have hrun : joinsSeen hashes s = changeOnce f s := by
      simp only [joinsSeen, Proc.bind_apply, core, if_neg hlen, f]
    rw [hrun]
    refine ⟨fun k hk ↦ .inl (held_changeOnce f s k hk),
      fun h hm ↦ kept_changeOnce (fun _ ↦ .inl rfl) hm, fun hlive h _ ↦ ?_⟩
    obtain ⟨-, -, hdisk | ⟨-, hfail | hcrash⟩⟩ := changeOnce_marks f s
    · exact (hdisk h).mpr (.inl rfl)
    · -- a write that fails had nothing to change
      refine absurd ?_ hlen
      rw [OrdMap.filter_eq_self.mpr]
      intro h hmem
      refine hsteady hfail h ?_
      simpa using hmem
    · exact absurd (by rw [hcrash]; rfl) hlive

end

/-! ## Worlds -/

/-- The mark is on disk, and in the process if one runs. -/
def World.Marked (w : World) (h : String) : Prop :=
  w.disk.records.Marked h ∧ ∀ c, w.core = some c → c.once.Marked h

/-- What the process has marked is marked on disk. -/
def World.MarksSaved (w : World) : Prop :=
  ∀ c, w.core = some c → ∀ h, c.once.Marked h → w.disk.records.Marked h

/-- The operator acknowledges a restore. -/
def IsAcknowledgement : Event → Prop
  | .request _ _ _ .acknowledgeRestore => True
  | _ => False

section

variable (C : Crypto) (L : Sapling.Lib)

/-- The event loses no mark it makes. -/
def Steady (w : World) : Event → Prop
  | .request env writes _ (.importKey _) => ∀ c, w.core = some c →
    KeySteady (startSt c w.disk env writes)
  | .request env writes _ (.importDump r) => ∀ c, w.core = some c →
    DumpSteady C L r (startSt c w.disk env writes)
  | .request env writes _ (.joinsSeen hashes) => ∀ c, w.core = some c →
    JoinsSteady hashes (startSt c w.disk env writes)
  | _ => True

/-- The state behind a procedure whose rest does nothing. -/
theorem state_bind {α β : Type} {x : M α} {f : α → M β} (hf : ∀ a s, (f a s).2 = s) (s : St) :
    ((x >>= f) s).2 = (x s).2 ∧
      (stopOf ((x >>= f) s).1 ≠ some .crash → stopOf (x s).1 ≠ some .crash) := by
  rw [Proc.bind_apply]
  split
  · rename_i a s' hx
    rw [hx]
    exact ⟨hf a s', fun _ h ↦ by cases h⟩
  · rename_i e s' hx
    rw [hx]
    exact ⟨rfl, id⟩

theorem Brought.bind {α β : Type} {x : M α} {f : α → M β} {s : St}
    (h : Brought C (stopOf (x s).1) s (x s).2) (hf : ∀ a s, (f a s).2 = s) :
    Brought C (stopOf ((x >>= f) s).1) s ((x >>= f) s).2 := by
  obtain ⟨hstate, hstop⟩ := state_bind (x := x) hf s
  rw [hstate]
  exact ⟨h.held, h.kept, fun hne ↦ h.saved (hstop hne)⟩

theorem state_listAfter (y : Except String Unit) (s : St) :
    ((do orRefuse Refuse.failed id y; return (← core).once.list : M SignedRecords) s).2 = s := by
  cases y <;> rfl

/-- What a request does in a process whose marks are saved. -/
theorem answer_brought {c : Core} {d : Disk} {env : Env} {writes : List WriteOutcome}
    {version : UInt32} (r : Request) (hs : MarksSaved (startSt c d env writes))
    (he : Steady C L ⟨some c, d⟩ (.request env writes version r))
    (hack : r ≠ .acknowledgeRestore) :
    Brought C (stopOf (answer C L r (startSt c d env writes)).1) (startSt c d env writes)
      (answer C L r (startSt c d env writes)).2 := by
  by_cases hr : BringsMarks r
  · cases r with
    | importKey r => exact (importKey_brought r hs (he c rfl)).bind C fun _ _ ↦ rfl
    | importDump r => exact (importDump_brought L r hs (he c rfl)).bind C fun _ _ ↦ rfl
    | joinsSeen hashes =>
      exact ((joinsSeen_brought hs (he c rfl)).bind C state_listAfter).bind C fun _ _ ↦ rfl
    | _ => exact hr.elim
  · have hwatch := watch_answer C L r hr (startSt c d env writes)
    rw [eq_false hack] at hwatch
    exact hwatch.brought hs

/-- What one event does to the marks. -/
structure World.MarkStep (ack : Prop) (w w' : World) : Prop where
  held : ∀ k, w'.HasKey k → w.HasKey k ∨ w'.Marked (keyHash C k)
  kept : ¬ ack → ∀ h, w.Marked h → w'.Marked h
  saved : w'.MarksSaved

/-- The step of a request, by what its end did. -/
theorem World.MarkStep.of_end {ack : Prop} {c : Core} {d : Disk} {env : Env}
    {writes : List WriteOutcome} {x : Except Stop Response} {s' : St}
    (hheld : ∀ k, s'.HasKey k → (startSt c d env writes).HasKey k ∨ s'.Marked (keyHash C k))
    (hkept : ¬ ack → ∀ h, (startSt c d env writes).Marked h → s'.Marked h)
    (hsaved : stopOf x ≠ some .crash → Signer.MarksSaved s') :
    World.MarkStep C ack ⟨some c, d⟩ ⟨survives x s'.core, s'.disk⟩ := by
  have hmarked (h : String) (hm : s'.Marked h) :
      World.Marked ⟨survives x s'.core, s'.disk⟩ h := by
    refine ⟨hm.2, fun c' hc' ↦ ?_⟩
    rw [eq_of_survives hc']
    exact hm.1
  refine ⟨fun k hk ↦ ?_, fun ha h hm ↦ ?_, fun c' hc' h hm ↦ ?_⟩
  · have hk' : s'.HasKey k := by
      rcases hk with ⟨c', hc', hk⟩ | hk
      · rw [eq_of_survives hc'] at hk
        exact .inl hk
      · exact .inr hk
    rcases hheld k hk' with hk | hk
    · exact .inl (hk.imp_left fun hk ↦ ⟨c, rfl, hk⟩)
    · exact .inr (hmarked _ hk)
  · exact hmarked h (hkept ha h ⟨hm.2 c rfl, hm.1⟩)
  · have hlive : stopOf x ≠ some .crash := by
      intro hx
      cases x with
      | ok a => cases hx
      | error e =>
        cases hx
        cases hc'
    rw [eq_of_survives hc'] at hm
    exact hsaved hlive h hm

theorem World.markStep_request {network : Network} {w : World} (hs : w.MarksSaved) {env : Env}
    {writes : List WriteOutcome} {version : UInt32} {r : Request}
    (he : Steady C L w (.request env writes version r)) :
    World.MarkStep C (r = .acknowledgeRestore) w
      (w.step C L network (.request env writes version r)).2 := by
  obtain ⟨core, d⟩ := w
  cases core with
  | none => exact ⟨fun k hk ↦ .inl hk, fun _ h hm ↦ hm, hs⟩
  | some c =>
    have hsaved : Signer.MarksSaved (startSt c d env writes) := hs c rfl
    simp only [World.step]
    by_cases hv : version ≠ protoVersion
    · rw [handle, if_pos hv]
      exact .of_end C (fun k hk ↦ .inl hk) (fun _ _ hm ↦ hm) fun _ ↦ hsaved
    · rw [handle, if_neg hv]
      by_cases hack : r = .acknowledgeRestore
      · have hwatch := watch_answer C L r (by rw [hack]; exact id) (startSt c d env writes)
        exact .of_end C (fun k hk ↦ .inl (hwatch.held k hk)) hwatch.kept
          fun _ ↦ hwatch.saved hsaved
      · have hb := answer_brought C L r hsaved he hack
        exact .of_end C hb.held (fun _ ↦ hb.kept) hb.saved

/-- A start reads the marks of the file, and loses none. -/
theorem load_marks (restored : Bool) (w : WriteOutcome) (d : Disk) :
    (∀ h, d.records.Marked h → (SignOnce.load restored w d).2.records.Marked h) ∧
      ∀ o, (SignOnce.load restored w d).1 = .ok o →
        ∀ h, o.Marked h ↔ (SignOnce.load restored w d).2.records.Marked h := by
  cases hd : d.once with
  | some f =>
    have hrec : d.records = ofFile f := by simp [Disk.records, hd]
    by_cases hf : f.format = SignOnce.format
    · have hload : SignOnce.load restored w d = (.ok (ofFile f), d) := by
        simp [SignOnce.load, hd, hf]
      rw [hload]
      refine ⟨fun _ hm ↦ hm, fun o ho h ↦ ?_⟩
      cases ho
      rw [hrec]
    · have hload : SignOnce.load restored w d =
          (.error (.error ("signonce.json: unknown format " ++ f.format)), d) := by
        simp [SignOnce.load, hd, hf]
      rw [hload]
      exact ⟨fun _ hm ↦ hm, fun o ho ↦ by cases ho⟩
  | none =>
    have hnone (h : String) : ¬ d.records.Marked h := by
      simp [Disk.records, hd, fresh, SignOnce.Marked]
    refine ⟨fun h hm ↦ absurd hm (hnone h), fun o ho h ↦ ?_⟩
    cases w with
    | done =>
      simp only [SignOnce.load, hd] at ho ⊢
      cases ho
      exact (marked_toFile _ d h).symm
    | failed e kept =>
      simp only [SignOnce.load, hd] at ho
      cases ho
    | cut kept =>
      simp only [SignOnce.load, hd] at ho
      cases ho

theorem World.markStep_restart {network : Network} (w : World) (w₁ w₂ : WriteOutcome) :
    World.MarkStep C False w (w.step C L network (.restart w₁ w₂)).2 := by
  simp only [World.step]
  have hkeys := (openSigner_keyFiles C network w₁ w₂ w.disk).2.1
  have hguard : ∀ d, (loadGuard w₂ d).2.records = d.records := fun _ ↦ rfl
  have hdisk (k : SecretKey) (hk : (openSigner C network w₁ w₂ w.disk).2.HasKey k) :
      w.disk.HasKey k := by
    rwa [Disk.HasKey, hkeys] at hk
  have hkept (h : String) (hm : w.disk.records.Marked h) :
      (openSigner C network w₁ w₂ w.disk).2.records.Marked h := by
    rcases openSigner_disk C network w₁ w₂ w.disk with hd | ⟨restored, hd | hd⟩
    · rwa [hd]
    · rw [hd]
      exact (load_marks restored w₁ w.disk).1 h hm
    · rw [hd, hguard]
      exact (load_marks restored w₁ w.disk).1 h hm
  have hcore (c : Core) (hc : (openSigner C network w₁ w₂ w.disk).1.toOption = some c) :
      Opened C network w₁ w₂ w.disk c (openSigner C network w₁ w₂ w.disk).2 := by
    refine openSigner_eq_ok C (Prod.ext ?_ rfl)
    cases hx : (openSigner C network w₁ w₂ w.disk).1 with
    | error e =>
      rw [hx] at hc
      cases hc
    | ok c' =>
      rw [hx] at hc
      cases hc
      rfl
  have hmarks (c : Core) (hc : (openSigner C network w₁ w₂ w.disk).1.toOption = some c)
      (h : String) : c.once.Marked h ↔
        (openSigner C network w₁ w₂ w.disk).2.records.Marked h := by
    have ho := hcore c hc
    have hrec := hguard (SignOnce.load c.ks.restored w₁ w.disk).2
    rw [ho.guard] at hrec
    dsimp only at hrec
    rw [hrec]
    exact (load_marks c.ks.restored w₁ w.disk).2 c.once ho.once h
  refine ⟨fun k hk ↦ .inl (.inr ?_), fun _ h hm ↦ ⟨hkept h hm.1, fun c hc ↦ ?_⟩,
    fun c hc h hm ↦ (hmarks c hc h).mp hm⟩
  · rcases hk with ⟨c, hc, hk⟩ | hk
    · obtain ⟨i, hi, hq⟩ := Result.bind_eq_ok.mp (hcore c hc).stores
      obtain ⟨q, -, hq⟩ := Result.bind_eq_ok.mp hq
      cases hq
      exact hdisk k (has_of_load hi hk)
    · exact hdisk k hk
  · exact (hmarks c hc h).mpr (hkept h hm.1)

/-- The restore was acknowledged in a state that had the key. -/
def AcknowledgedWith (network : Network) (guard : World → Event → Prop) (w₀ : World)
    (h : List (Event × Answer)) (k : SecretKey) : Prop :=
  ∃ h₁ x h₂ w₁, h = h₂ ++ x :: h₁ ∧ Trace (World.step C L network) guard w₀ h₁ w₁ ∧ w₁.HasKey k ∧
    IsAcknowledgement x.1

variable {C L} in
theorem AcknowledgedWith.cons {network : Network} {guard : World → Event → Prop} {w₀ : World}
    {h : List (Event × Answer)} {k : SecretKey} (ha : AcknowledgedWith C L network guard w₀ h k)
    (x : Event × Answer) : AcknowledgedWith C L network guard w₀ (x :: h) k := by
  obtain ⟨h₁, y, h₂, w₁, rfl, ht, hk, hy⟩ := ha
  exact ⟨h₁, y, x :: h₂, w₁, rfl, ht, hk, hy⟩

/-- What one event does, whichever it is. -/
theorem World.markStep {network : Network} {w : World} (hs : w.MarksSaved) (e : Event)
    (he : Steady C L w e) :
    World.MarkStep C (IsAcknowledgement e) w (w.step C L network e).2 := by
  cases e with
  | restart w₁ w₂ => exact World.markStep_restart C L w w₁ w₂
  | request env writes version r =>
    have hstep := @World.markStep_request C L network _ hs _ _ _ _ he
    refine ⟨hstep.held, fun hno h hm ↦ hstep.kept (fun hr ↦ hno ?_) h hm, hstep.saved⟩
    rw [hr]
    trivial

/-- **Imported keys are marked.**  Over any directory, in a run whose events lose no mark they make, a
key that came into the store is marked on disk, unless the restore was acknowledged while the key was
there. -/
theorem imports_marked {network : Network} {d : Disk} {h : List (Event × Answer)} {w : World}
    {k : SecretKey} (t : Trace (World.step C L network) (Steady C L) ⟨none, d⟩ h w)
    (hk : w.HasKey k) (hnew : ¬ d.HasKey k) :
    w.disk.records.Marked (keyHash C k) ∨
      AcknowledgedWith C L network (Steady C L) ⟨none, d⟩ h k := by
  suffices hall : w.MarksSaved ∧ ∀ k, w.HasKey k → d.HasKey k ∨ w.Marked (keyHash C k) ∨
      AcknowledgedWith C L network (Steady C L) ⟨none, d⟩ h k by
    exact ((hall.2 k hk).resolve_left hnew).imp_left And.left
  clear hk hnew k
  induction t with
  | start =>
    refine ⟨fun c hc ↦ (nomatch hc), fun k hk ↦ .inl ?_⟩
    rcases hk with ⟨c, hc, -⟩ | hk
    · cases hc
    · exact hk
  | step e t he ih =>
    obtain ⟨hs, hall⟩ := ih
    have hstep := @World.markStep C L network _ hs e he
    refine ⟨hstep.saved, fun k hk ↦ ?_⟩
    rcases hstep.held k hk with hold | hm
    · rcases hall k hold with hd | hm | ha
      · exact .inl hd
      · by_cases hack : IsAcknowledgement e
        · exact .inr (.inr ⟨_, _, [], _, rfl, t, hold, hack⟩)
        · exact .inr (.inl (hstep.kept hack _ hm))
      · exact .inr (.inr (ha.cons _))
    · exact .inr (.inl hm)

end

/-! ## A mark that is missed -/

/-- The import of a dump with this text. -/
def sampleDump (text : String) : Event :=
  .request ⟨0, fun _ ↦ [], fun _ ↦ some text⟩ [] protoVersion (.importDump ⟨"dump", false, none⟩)

/-- A dump whose last line is no record, and the same dump without it. -/
def missedMark : List Event :=
  [.restart .done .done, sampleDump (sampleWif ++ " 0\nvaultsetsig=0"), sampleDump (sampleWif ++ " 0")]

/-- One key whose mark is not written, and the same import again. -/
def failedMark : List Event :=
  [.restart .done .done, .request sampleEnv [.done, .failed "No space left on device" 0] protoVersion
    (.importKey ⟨sampleWif, none⟩), sampleImport]

theorem sampleKey_spells : ∃ k, Imported.parseKey (Hex.encode (List.replicate 32 1)) = .ok k := by
  have h : (Imported.parseKey (Hex.encode (List.replicate 32 1))).isOk := by decide +kernel
  cases hx : Imported.parseKey (Hex.encode (List.replicate 32 1)) with
  | ok k => exact ⟨k, rfl⟩
  | error e =>
    rw [hx] at h
    cases h

/-- Behind a retry that succeeds the key is in the store, and no mark is on disk. -/
theorem mark_missed {es : List Event} (hes : es = missedMark ∨ es = failedMark) :
    ∃ k, (sampleRun es).2.HasKey k ∧ ¬ (World.start sampleSeed).HasKey k ∧
      ¬ (sampleRun es).2.disk.records.Marked (keyHash sampleCrypto k) := by
  obtain ⟨k, hk⟩ := sampleKey_spells
  have hdisk : (sampleRun es).2.disk.imported.map (·.keys) =
        some [Hex.encode (List.replicate 32 1)] ∧
      (sampleRun es).2.disk.once = some (SignOnce.fresh false).toFile := by
    rcases hes with rfl | rfl
    · decide +kernel
    · decide +kernel
  obtain ⟨f, hf, hkeys⟩ := Option.map_eq_some_iff.mp hdisk.1
  refine ⟨k, .inr ⟨f, hf, .inl ⟨_, ?_, hk⟩⟩, ?_, ?_⟩
  · rw [hkeys]
    exact List.mem_cons_self
  · rintro (⟨c, hc, -⟩ | ⟨g, hg, -⟩)
    · cases hc
    · cases hg
  · rw [Disk.records, hdisk.2]
    rintro (hm | hm)
    · cases hm
    · cases hm

/-- Without an acknowledgement in a history no key is excused. -/
theorem not_acknowledgedWith {C : Crypto} {L : Sapling.Lib} {network : Network}
    {guard : World → Event → Prop} {w₀ : World} {h : List (Event × Answer)} {k : SecretKey}
    (hno : ∀ x ∈ h, ¬ IsAcknowledgement x.1) : ¬ AcknowledgedWith C L network guard w₀ h k := by
  rintro ⟨h₁, x, h₂, w₁, rfl, -, -, hx⟩
  exact hno x (by simp) hx

theorem not_imports_marked :
    (∃ k, (sampleRun missedMark).2.HasKey k ∧ ¬ (World.start sampleSeed).HasKey k ∧
      ¬ ((sampleRun missedMark).2.disk.records.Marked (keyHash sampleCrypto k) ∨
        AcknowledgedWith sampleCrypto .blank .regtest (fun _ _ ↦ True) (World.start sampleSeed)
          (sampleRun missedMark).1 k)) ∧
      ∃ k, (sampleRun failedMark).2.HasKey k ∧ ¬ (World.start sampleSeed).HasKey k ∧
        ¬ ((sampleRun failedMark).2.disk.records.Marked (keyHash sampleCrypto k) ∨
          AcknowledgedWith sampleCrypto .blank .regtest (fun _ _ ↦ True) (World.start sampleSeed)
            (sampleRun failedMark).1 k) := by
  have hone (es : List Event) (hes : es = missedMark ∨ es = failedMark) :
      ∃ k, (sampleRun es).2.HasKey k ∧ ¬ (World.start sampleSeed).HasKey k ∧
        ¬ ((sampleRun es).2.disk.records.Marked (keyHash sampleCrypto k) ∨
          AcknowledgedWith sampleCrypto .blank .regtest (fun _ _ ↦ True) (World.start sampleSeed)
            (sampleRun es).1 k) := by
    obtain ⟨k, hk, hnew, hm⟩ := mark_missed hes
    refine ⟨k, hk, hnew, not_or.mpr ⟨hm, not_acknowledgedWith fun x hx ↦ ?_⟩⟩
    have he : x.1 ∈ es := by
      have hmem := List.mem_map_of_mem (f := Prod.fst) hx
      rwa [sampleRun, Trace.events_run, List.mem_reverse] at hmem
    rcases hes with rfl | rfl
    · simp only [missedMark, List.mem_cons, List.not_mem_nil, or_false] at he
      rcases he with he | he | he <;> rw [he] <;> exact id
    · simp only [failedMark, List.mem_cons, List.not_mem_nil, or_false] at he
      rcases he with he | he | he <;> rw [he] <;> exact id
  exact ⟨hone _ (.inl rfl), hone _ (.inr rfl)⟩

/-- One key, imported as it should be. -/
theorem imports_marked_sample : ∃ k,
    (sampleRun [.restart .done .done, sampleImport]).2.HasKey k ∧
      ((sampleRun [.restart .done .done, sampleImport]).2.disk.records.Marked
          (keyHash sampleCrypto k) ∨
        AcknowledgedWith sampleCrypto .blank .regtest (Steady sampleCrypto .blank)
          (World.start sampleSeed) (sampleRun [.restart .done .done, sampleImport]).1 k) := by
  obtain ⟨k, hk⟩ := sampleKey_spells
  have hkeys : (sampleRun [.restart .done .done, sampleImport]).2.disk.imported.map (·.keys) =
      some [Hex.encode (List.replicate 32 1)] := by decide +kernel
  obtain ⟨f, hf, hkeys⟩ := Option.map_eq_some_iff.mp hkeys
  have hhas : (sampleRun [.restart .done .done, sampleImport]).2.HasKey k := by
    refine .inr ⟨f, hf, .inl ⟨_, ?_, hk⟩⟩
    rw [hkeys]
    exact List.mem_cons_self
  have ht : Trace (World.step sampleCrypto .blank .regtest) (Steady sampleCrypto .blank)
      (World.start sampleSeed) (sampleRun [.restart .done .done, sampleImport]).1
      (sampleRun [.restart .done .done, sampleImport]).2 := by
    refine Trace.trace_run ⟨trivial, ?_, trivial⟩
    intro c _
    refine ⟨fun n hn ↦ (nomatch hn), fun e kept ws h ↦ ?_⟩
    cases h
  refine ⟨k, hhas, imports_marked sampleCrypto .blank ht hhas ?_⟩
  rintro ⟨g, hg, -⟩
  cases hg

end Yew.Signer
