import Yew.Signer.Marks

/-!
# The lines of a dump

A dump is read line by line, and its keys are stored as they are read; they are marked only behind
the last line.  Two kinds of line end the import: a sign-once record that cannot be read, and a key
whose label cannot.

The functions are in `yewd/signer/src/walletio.rs`.  A dump is text, one key or record a line.
-/

namespace Yew.Signer

open Tx Keys Proto Proc SignOnce

/-- The line is a sign-once record that cannot be read. -/
def BadRecord (line : List Char) : Prop :=
  ∃ w rest body, line.splitOn ' ' = w :: rest ∧ stripStart "vaultsetsig=" w = some body ∧
    recordOfDump body = none

/-- The key of a line that begins with a WIF. -/
def LineKey (C : Crypto) (network : Network) (line : List Char) (k : SecretKey) : Prop :=
  ∃ w rest, line.splitOn ' ' = w :: rest ∧ rest ≠ [] ∧
    decodeWif C network (String.ofList w) = .ok k

/-- The line has a key, and a label in whose text an escape is cut inside a character. -/
def BadLabel (C : Crypto) (network : Network) (line : List Char) : Prop :=
  ∃ w rest k e, line.splitOn ' ' = w :: rest ∧ decodeWif C network (String.ofList w) = .ok k ∧
    labelOf (some "") (rest.drop 1) = .error e

/-- The import of a dump ends in this line. -/
def StopLine (C : Crypto) (network : Network) (line : List Char) : Prop :=
  BadRecord line ∨ BadLabel C network line

/-- No line the import ends in stands behind one with a key that is not among `ks`. -/
def CleanDump (C : Crypto) (network : Network) (ks : List SecretKey) (ls : List (List Char)) :
    Prop :=
  ∀ pre l post, ls = pre ++ l :: post → StopLine C network l →
    ∀ l' ∈ pre, ∀ k, LineKey C network l' k → k ∈ ks

/-- What a step does that brings no key and leaves the sign-once store alone. -/
structure Aside (s s' : St) : Prop where
  network : s'.core.network = s.core.network
  once : s'.core.once = s.core.once
  disk : s'.disk.once = s.disk.once
  writes : s'.writes <:+ s.writes
  held : ∀ k, s'.HasKey k → s.HasKey k
  ready : ∀ ks, Ready ks s → Ready ks s'

instance : Proc.Path Aside where
  refl _ := ⟨rfl, rfl, rfl, List.suffix_refl _, fun _ h ↦ h, fun _ h ↦ h⟩
  trans hab hbc := ⟨hbc.network.trans hab.network, hbc.once.trans hab.once, hbc.disk.trans hab.disk,
    hbc.writes.trans hab.writes, fun k h ↦ hab.held k (hbc.held k h),
    fun ks h ↦ hbc.ready ks (hab.ready ks h)⟩

section

variable {s s' : St}

theorem Aside.of_imported (hnet : s'.core.network = s.core.network)
    (honce : s'.core.once = s.core.once) (himported : s'.core.imported = s.core.imported)
    (hdisk : s'.disk.once = s.disk.once) (hfile : s'.disk.imported = s.disk.imported)
    (hw : s'.writes <:+ s.writes) : Aside s s' := by
  refine ⟨hnet, honce, hdisk, hw, fun k hk ↦ ?_, fun ks h ↦ ?_⟩
  · rwa [St.HasKey, himported, Disk.HasKey, hfile] at hk
  · rwa [Ready, himported]

theorem aside_core : Moves Aside core := fun s ↦ Proc.Path.refl s

theorem aside_nextWrite : Moves Aside nextWrite := by
  intro s
  obtain ⟨w, ws, h, hws, -⟩ := nextWrite_cases s
  rw [h]
  exact .of_imported rfl rfl rfl rfl rfl hws

theorem aside_replaceFile {f : Disk → Disk} (honce : ∀ d, (f d).once = d.once)
    (himported : ∀ d, (f d).imported = d.imported) : Moves Aside (replaceFile f) := by
  intro s
  obtain ⟨ws, hws, h | ⟨-, ⟨e, h⟩ | ⟨d, rfl | rfl, h⟩⟩⟩ := replaceFile_cases f s
  · rw [h]
    exact .of_imported rfl rfl rfl (honce _) (himported _) hws
  · rw [h]
    exact .of_imported rfl rfl rfl rfl rfl hws
  · rw [h]
    exact .of_imported rfl rfl rfl (honce _) (himported _) hws
  · rw [h]
    exact .of_imported rfl rfl rfl rfl rfl hws

theorem aside_modifyPq (f : List PqEntry → List PqEntry) :
    Moves Aside (modifyCore fun c ↦ { c with pqImported := f c.pqImported }) := fun _ ↦
  .of_imported rfl rfl rfl rfl rfl (List.suffix_refl _)

theorem aside_addPqImported (scheme : UInt8) (seed : Bytes) :
    Moves Aside (addPqImported scheme seed) := by
  refine aside_core.bind fun c ↦ ?_
  split
  · exact .pure _
  · refine (aside_modifyPq (· ++ _)).bind fun _ ↦ Moves.bind
      (aside_core.bind fun _ ↦ aside_replaceFile (fun _ ↦ rfl) fun _ ↦ rfl) fun x ↦ ?_
    cases x with
    | error e => exact (aside_modifyPq List.dropLast).bind fun _ ↦ .pure _
    | ok => exact aside_core.bind fun _ ↦ .pure _

theorem ready_lock {i : Imported} (h : i.sealed.isSome) :
    i.lock.sealed.isSome ∧ i.lock.pass.isNone := by
  rw [Imported.lock, if_pos h]
  exact ⟨h, rfl⟩

theorem Aside.of_idle (h : Idle s s') : Aside s s' := by
  have hwatch : Watch False s s' := .of_idle h
  rcases h.core with hc | ⟨-, hc⟩
  · exact .of_imported (by rw [hc]) (by rw [hc]) (by rw [hc]) (by rw [h.disk]) (by rw [h.disk])
      (h.writes ▸ List.suffix_refl _)
  · refine ⟨by rw [hc]; rfl, by rw [hc]; rfl, by rw [h.disk], h.writes ▸ List.suffix_refl _,
      hwatch.held, ?_⟩
    intro ks hks
    have himp : s'.core.imported = s.core.imported.lock := by
      rw [hc]
      rfl
    rw [Ready, himp]
    by_cases hs : s.core.imported.sealed.isSome
    · exact .inr (ready_lock hs)
    · rw [Imported.lock, if_neg hs]
      exact hks

instance : Placid (fun _ ↦ Aside) where
  idle := .of_idle
  caught h := h
  nextWrite := aside_nextWrite
  publicCache _ := aside_replaceFile (fun _ ↦ rfl) fun _ ↦ rfl
  addPqImported := aside_addPqImported

theorem St.Lives.suffix (h : s.Lives) (hw : s'.writes <:+ s.writes) : s'.Lives :=
  fun n hn ↦ h n (hw.mem hn)

/-! ## What can stop a line -/

/-- In a process that lives on, the procedure stops only by a refusal. -/
def Refuses {α : Type} (x : M α) : Prop :=
  Triple St.Lives x (fun _ ↦ St.Lives) fun e _ ↦ ∃ code reason, e = .refused code reason

variable {α β : Type}

theorem Refuses.pure (a : α) : Refuses (pure a : M α) := Triple.pure fun _ h ↦ h

theorem Refuses.bind {x : M α} {f : α → M β} (hx : Refuses x) (hf : ∀ a, Refuses (f a)) :
    Refuses (x >>= f) := Triple.bind hx hf

theorem refuses_no (code reason : String) : Refuses (no code reason : M α) :=
  Triple.throw fun _ _ ↦ ⟨code, reason, rfl⟩

theorem refuses_core : Refuses core := by
  intro s hs
  refine ⟨?_, fun e s' h ↦ by cases h⟩
  rintro a s' h
  cases h
  exact hs

theorem refuses_orRefuse (code : String) (text : String → String) (x : Except String α) :
    Refuses (orRefuse code text x) := by
  cases x with
  | ok a => exact Refuses.pure a
  | error e => exact refuses_no code (text e)

theorem refuses_modifyCore (f : Core → Core) : Refuses (modifyCore f) :=
  Triple.modify fun _ h ↦ h

theorem refuses_replaceFile (f : Disk → Disk) : Refuses (replaceFile f) := by
  intro s hs
  obtain ⟨ws, hws, h | ⟨-, ⟨e, h⟩ | ⟨d, -, h⟩⟩⟩ := replaceFile_cases f s
  · rw [h]
    refine ⟨?_, fun e s' h ↦ by cases h⟩
    rintro a s' h
    cases h
    exact hs.suffix hws
  · rw [h]
    refine ⟨?_, fun e s' h ↦ by cases h⟩
    rintro a s' h
    cases h
    exact hs.suffix hws
  · exact (replaceFile_eq_error h hs).elim

theorem refuses_addPqImported (scheme : UInt8) (seed : Bytes) :
    Refuses (addPqImported scheme seed) := by
  refine refuses_core.bind fun c ↦ ?_
  split
  · exact .pure _
  · refine (refuses_modifyCore _).bind fun _ ↦ Refuses.bind
      (refuses_core.bind fun _ ↦ refuses_replaceFile _) fun x ↦ ?_
    cases x with
    | error e => exact (refuses_modifyCore _).bind fun _ ↦ .pure _
    | ok => exact refuses_core.bind fun _ ↦ .pure _

theorem Refuses.ite {c : Prop} [Decidable c] {x y : M α} (hx : Refuses x) (hy : Refuses y) :
    Refuses (if c then x else y) := Triple.ite (fun _ ↦ hx) fun _ ↦ hy

theorem refuses_now : Refuses now := by
  intro s hs
  refine ⟨?_, fun e s' h ↦ by cases h⟩
  rintro a s' h
  cases h
  exact hs

theorem refuses_encState : Refuses encState :=
  refuses_core.bind fun _ ↦ refuses_now.bind fun _ ↦ .ite (.pure _) <|
    .ite ((refuses_modifyCore _).bind fun _ ↦ .pure _) (.pure _)

theorem refuses_keys : Refuses keys := by
  refine refuses_encState.bind fun x ↦ refuses_core.bind fun c ↦ ?_
  cases c.keys with
  | none => exact refuses_no _ _
  | some k => exact .ite (refuses_no _ _) (.pure _)

variable (C : Crypto) (L : Sapling.Lib)

theorem refuses_addPq (scheme : UInt8) (index : Option UInt32) (seed : Bytes) :
    Refuses (addPq C scheme index seed) := by
  refine .ite (refuses_no _ _) ?_
  split
  · exact refuses_no _ _
  · refine Refuses.bind ?_ fun own ↦ ?_
    · unfold isOwnSeed
      split
      · exact .pure _
      · exact Refuses.bind (refuses_keys.bind fun _ ↦ .pure _) fun _ ↦ .pure _
    · cases own with
      | some i => exact .pure _
      | none =>
        exact (refuses_addPqImported _ _).bind fun _ ↦ (refuses_orRefuse _ _ _).bind fun _ ↦
          .pure _

/-- What one line does. -/
structure LineStep (line : List Char) (s : St) (d d' : DumpState) (s' : St) : Prop where
  network : s'.core.network = s.core.network
  once : s'.core.once = s.core.once
  disk : s'.disk.once = s.disk.once
  writes : s'.writes <:+ s.writes
  keys : ∀ e ∈ d.out.keys, e ∈ d'.out.keys
  held : Aside s s' ∨
    ∃ key, LineKey C s.core.network line key ∧ ¬ Ready [key] s ∧
      (∀ k, s'.HasKey k → s.HasKey k ∨ k = key) ∧
      ∃ e ∈ d'.out.keys, e.1.new = true ∧ e.1.pubkey = Imported.hexPub (C.publicKey key)

/-- How a line ends: it is read, or the import ends in it and nothing has happened. -/
def LineEnd (line : List Char) (s : St) (d : DumpState) : Except Stop DumpState × St → Prop
  | (.ok d', s') => LineStep C line s d d' s'
  | (.error _, s') => StopLine C s.core.network line ∧ Aside s s'

variable {C} {line : List Char} {d d' : DumpState}

theorem LineStep.of_aside (h : Aside s s') (hd : d'.out.keys = d.out.keys) :
    LineStep C line s d d' s' :=
  ⟨h.network, h.once, h.disk, h.writes, fun _ he ↦ hd ▸ he, .inl h⟩

theorem lineEnd_pure (hd : d'.out.keys = d.out.keys) :
    LineEnd C line s d ((pure d' : M DumpState) s) := .of_aside (Proc.Path.refl s) hd

theorem lineEnd_pq (hlives : s.Lives) (body : List Char) :
    LineEnd C line s d (importPqLine C d body s) := by
  unfold importPqLine
  cases pqOfDump body with
  | none => exact lineEnd_pure rfl
  | some x =>
    obtain ⟨scheme, index, seed⟩ := x
    dsimp only
    have hmoves : Moves Aside (addPq C scheme index seed) :=
      ends_addPq (R := fun _ ↦ Aside) C scheme index seed
    have hstop := (refuses_addPq C scheme index seed s hlives).2
    have haside := hmoves s
    rw [Proc.bind_apply]
    unfold catchRefused
    cases hrun : addPq C scheme index seed s with
    | mk x s' =>
      rw [hrun] at haside
      cases x with
      | ok k => exact .of_aside haside rfl
      | error e =>
        obtain ⟨code, reason, rfl⟩ := hstop e s' hrun
        exact .of_aside haside rfl

theorem lineEnd_key {w : List Char} {rest : List (List Char)} (hlives : s.Lives)
    (hline : line.splitOn ' ' = w :: rest) (hrest : rest ≠ []) :
    LineEnd C line s d (importKeyLine C d w (rest.drop 1) s) := by
  unfold importKeyLine
  rw [Proc.bind_apply]
  simp only [core]
  cases hwif : decodeWif C s.core.network (String.ofList w) with
  | error e => exact lineEnd_pure rfl
  | ok key =>
    dsimp only
    rw [Proc.bind_apply]
    cases hlabel : labelOf (some "") (rest.drop 1) with
    | error e =>
      have hbad : StopLine C s.core.network line := .inr ⟨w, rest, key, e, hline, hwif, hlabel⟩
      cases e with
      | error m => exact ⟨hbad, Proc.Path.refl s⟩
      | panic => exact ⟨hbad, Proc.Path.refl s⟩
    | ok label =>
      have hok : orHalt Refuse.failed id (Except.ok label) s = (.ok label, s) := rfl
      rw [hok]
      dsimp only
      rw [Proc.bind_apply]
      rcases addImported_lives C key hlives with ⟨-, n, h⟩ | ⟨e, ws, hws, h⟩ | ⟨hnew, -, n, h⟩
      · rw [h]
        refine ⟨rfl, rfl, rfl, List.suffix_refl _, fun e he ↦ List.mem_append_left _ he,
          .inl (Proc.Path.refl s)⟩
      · rw [h]
        exact .of_aside (.of_imported rfl rfl rfl rfl rfl hws) rfl
      · rw [h]
        exact ⟨rfl, rfl, rfl, List.tail_suffix _, fun e he ↦ List.mem_append_left _ he, .inr ⟨key,
          ⟨w, rest, hline, hrest, hwif⟩, hnew, fun k hk ↦ hasKey_push C hk, _,
          List.mem_append_right _ List.mem_cons_self, rfl, rfl⟩⟩

theorem lineEnd_secret (L : Sapling.Lib) {w : List Char} {rest : List (List Char)}
    (hlives : s.Lives) (hline : line.splitOn ' ' = w :: rest) (hrest : rest ≠ []) (zkeys : Bool) :
    LineEnd C line s d (importSecretLine C L zkeys d w rest s) := by
  unfold importSecretLine
  rw [Proc.bind_apply]
  simp only [core]
  split
  · have hown : ∃ b, isOwnZkey L w s = (.ok b, s) := ⟨_, rfl⟩
    obtain ⟨b, hb⟩ := hown
    rw [Proc.bind_apply, hb]
    cases b with
    | true => exact lineEnd_pure rfl
    | false => exact lineEnd_pure rfl
  · cases stripStart "pqseed=" w with
    | some body => exact lineEnd_pq hlives body
    | none => exact lineEnd_key hlives hline hrest

/-- One line, in a process that lives on. -/
theorem lineEnd_line (L : Sapling.Lib) (hlives : s.Lives) (zkeys : Bool) :
    LineEnd C line s d (importLine C L zkeys d line s) := by
  unfold importLine
  split
  · exact lineEnd_pure rfl
  cases hline : line.splitOn ' ' with
  | nil => exact lineEnd_pure rfl
  | cons w rest =>
    dsimp only
    split
    · exact lineEnd_pure rfl
    cases hset : stripStart "vaultsetsig=" w with
    | some body =>
      dsimp only
      cases hrec : recordOfDump body with
      | some r => exact lineEnd_pure rfl
      | none => exact ⟨.inl ⟨w, rest, body, hline, hset, hrec⟩, Proc.Path.refl s⟩
    | none =>
      dsimp only
      cases stripStart "vaultbuild=" w with
      | some body =>
        refine lineEnd_pure ?_
        cases buildOfDump body <;> rfl
      | none =>
        cases stripStart "vaultrecipient=" w with
        | some body =>
          refine lineEnd_pure ?_
          cases recipientOfDump body <;> rfl
        | none =>
          dsimp only
          split
          · exact lineEnd_pure rfl
          · exact lineEnd_secret L hlives hline ‹_› zkeys

/-! ## The whole dump -/

/-- What the lines of a dump have done: the sign-once store is as it was, and a key that came in is
among those of the result, as a new one. -/
structure LinesDone (C : Crypto) (s : St) (d d' : DumpState) (s' : St) : Prop where
  once : s'.core.once = s.core.once
  disk : s'.disk.once = s.disk.once
  writes : s'.writes <:+ s.writes
  keys : ∀ e ∈ d.out.keys, e ∈ d'.out.keys
  held : ∀ k, s'.HasKey k → s.HasKey k ∨
    ∃ e ∈ d'.out.keys, e.1.new = true ∧ e.1.pubkey = Imported.hexPub (C.publicKey k)

theorem LineStep.then {d₁ d₂ : DumpState} {s₁ s₂ : St} (h₁ : LineStep C line s d d₁ s₁)
    (h₂ : LinesDone C s₁ d₁ d₂ s₂) : LinesDone C s d d₂ s₂ := by
  refine ⟨h₂.once.trans h₁.once, h₂.disk.trans h₁.disk, h₂.writes.trans h₁.writes,
    fun e he ↦ h₂.keys e (h₁.keys e he), fun k hk ↦ ?_⟩
  rcases h₂.held k hk with hk | hk
  · rcases h₁.held with haside | ⟨key, -, -, honly, e, he, hnew, hpub⟩
    · exact .inl (haside.held k hk)
    · rcases honly k hk with hk | rfl
      · exact .inl hk
      · exact .inr ⟨e, h₂.keys e he, hnew, hpub⟩
  · exact .inr hk

theorem CleanDump.tail {network : Network} {ks : List SecretKey} {l : List Char}
    {ls : List (List Char)} (h : CleanDump C network ks (l :: ls)) : CleanDump C network ks ls := by
  rintro pre x post rfl hx l' hl'
  exact h (l :: pre) x post rfl hx l' (List.mem_cons_of_mem _ hl')

/-- How the lines of a clean dump end: all are read, or the import ends in one of them and no key has
come in. -/
theorem linesEnd (L : Sapling.Lib) {ks : List SecretKey} {ls : List (List Char)} (hlives : s.Lives)
    (hclean : CleanDump C s.core.network ks ls) (hready : Ready ks s) (zkeys : Bool) :
    (∃ d' s', importLines C L zkeys d ls s = (.ok d', s') ∧ LinesDone C s d d' s') ∨
      ∃ e s', importLines C L zkeys d ls s = (.error e, s') ∧
        (∃ l ∈ ls, StopLine C s.core.network l) ∧ Aside s s' := by
  induction ls generalizing d s ks with
  | nil =>
    exact .inl ⟨d, s, rfl, rfl, rfl, List.suffix_refl _, fun _ he ↦ he, fun _ hk ↦ .inl hk⟩
  | cons l ls ih =>
    have hend : LineEnd C l s d (importLine C L zkeys d l s) := lineEnd_line L hlives zkeys
    rw [importLines, Proc.bind_apply]
    cases hrun : importLine C L zkeys d l s with
    | mk x s₁ =>
      rw [hrun] at hend
      cases x with
      | error e => exact .inr ⟨e, s₁, rfl, ⟨l, List.mem_cons_self, hend.1⟩, hend.2⟩
      | ok d₁ =>
        have hstep : LineStep C l s d d₁ s₁ := hend
        have hlives₁ := hlives.suffix hstep.writes
        have hclean₁ : CleanDump C s₁.core.network ks ls := hstep.network ▸ hclean.tail
        rcases hstep.held with haside | ⟨key, hkey, hnew, -⟩
        · rcases ih (d := d₁) hlives₁ hclean₁ (haside.ready ks hready) with ⟨d₂, s₂, h, hdone⟩ |
            ⟨e, s₂, h, ⟨x, hx, hstop⟩, hlast⟩
          · exact .inl ⟨d₂, s₂, h, hstep.then hdone⟩
          · exact .inr ⟨e, s₂, h, ⟨x, List.mem_cons_of_mem _ hx, hstep.network ▸ hstop⟩,
              Proc.Path.trans haside hlast⟩
        · -- a key came in, so no line behind this one can be a stop
          have hnone (x : List Char) (hx : x ∈ ls) : ¬ StopLine C s.core.network x := by
            intro hstop
            obtain ⟨pre, post, rfl⟩ := List.append_of_mem hx
            have hmem := hclean (l :: pre) x post rfl hstop l List.mem_cons_self key hkey
            refine hnew (hready.imp_left fun hks k hk ↦ ?_)
            rw [List.mem_singleton.mp hk]
            exact hks key hmem
          have hclean₂ : CleanDump C s₁.core.network [] ls := by
            rintro pre x post rfl hstop
            rw [hstep.network] at hstop
            exact absurd hstop (hnone x (by simp))
          rcases ih (d := d₁) hlives₁ hclean₂ (.inl fun k hk ↦ by cases hk) with
            ⟨d₂, s₂, h, hdone⟩ | ⟨e, s₂, h, ⟨x, hx, hstop⟩, -⟩
          · exact .inl ⟨d₂, s₂, h, hstep.then hdone⟩
          · rw [hstep.network] at hstop
            exact absurd hstop (hnone x hx)

end

end Yew.Signer
