import Yew.Signer.OnceRuns

/-!
# The equivocation guard over runs

As long as no append of the log is torn, the file is the records in memory line by line, and grows
only at its end.  The prices a key states over a run are read off its history: a new attestation
states one, and every cancel co-signature does.  They agree as long as a block is spelled as the
key's records spell it, and a co-signature does not lean on a record of another key.

The guard is that of `yewd/signer/src/attest.rs`.  The file is bytes, so an append that is cut
anywhere is an event of the run.
-/

namespace Yew.Signer

open Tx Keys Proto Proc Text

/-! ## Memory and disk -/

/-- The write leaves all of its bytes or none. -/
def WriteOutcome.Whole : WriteOutcome → Prop
  | .done => True
  | .failed _ kept => kept = 0
  | .cut kept => kept = 0

/-- The file is the records in memory, line by line. -/
def Logged (s : St) : Prop := s.disk.guard.getD [] = s.core.guard.flatMap Attested.line

/-- The log is as it was, in memory and on disk. -/
structure GuardSame (s s' : St) : Prop where
  core : s'.core.guard = s.core.guard
  disk : s'.disk.guard = s.disk.guard
  writes : s'.writes <:+ s.writes

instance : Proc.Path GuardSame where
  refl _ := ⟨rfl, rfl, List.suffix_refl _⟩
  trans hab hbc :=
    ⟨hbc.core.trans hab.core, hbc.disk.trans hab.disk, hbc.writes.trans hab.writes⟩

theorem guardSame_core : Moves GuardSame core := fun s ↦ Proc.Path.refl s

theorem guardSame_change (f : SignOnce → SignOnce) : Moves GuardSame (changeOnce f) := by
  intro s
  rw [changeOnce_cases]
  obtain ⟨ws, hws, h | ⟨-, ⟨e, h⟩ | ⟨d, hd, h⟩⟩⟩ := replaceFile_cases
    (fun d ↦ { d with once := some (f s.core.once).toFile })
    { s with core := { s.core with once := f s.core.once } }
  · rw [h]
    exact ⟨rfl, rfl, hws⟩
  · rw [h]
    exact ⟨rfl, rfl, hws⟩
  · rw [h]
    rcases hd with rfl | rfl
    · exact ⟨rfl, rfl, hws⟩
    · exact ⟨rfl, rfl, hws⟩

theorem guardSame_markRestored : Moves GuardSame markRestored :=
  guardSame_core.bind fun _ ↦ .ite (.pure _) (guardSame_change _)

theorem guardSame_importOnce (rs : List SignedRecord) : Moves GuardSame (importOnce rs) := by
  refine guardSame_core.bind fun c ↦ ?_
  cases c.once.importCounts rs with
  | error e => exact .pure _
  | ok n =>
    refine (guardSame_change _).bind fun x ↦ ?_
    cases x with
    | error e => exact .pure _
    | ok => exact .pure _

instance : Tame GuardSame where
  free h := ⟨h.guard, h.diskGuard, h.writes⟩
  keyImported _ _ :=
    .ite (guardSame_core.bind fun _ ↦ .ite (.pure _) (guardSame_change _)) guardSame_markRestored
  joinsSeen _ := guardSame_core.bind fun _ ↦ .ite (.pure _) (guardSame_change _)

/-- What a request does to the log: it grows at its end, and the file keeps up with memory unless
an append is torn. -/
structure GuardMoves (s s' : St) : Prop where
  logged : (∀ w ∈ s.writes, w.Whole) → Logged s → Logged s'
  grows : s.core.guard <+: s'.core.guard
  writes : s'.writes <:+ s.writes

instance : Proc.Path GuardMoves where
  refl s := ⟨fun _ h ↦ h, List.prefix_refl _, List.suffix_refl _⟩
  trans hab hbc := by
    refine ⟨fun hw hl ↦ ?_, hab.grows.trans hbc.grows, hbc.writes.trans hab.writes⟩
    exact hbc.logged (fun w h ↦ hw w (hab.writes.subset h)) (hab.logged hw hl)

theorem GuardSame.logged {s s' : St} (h : GuardSame s s') (hl : Logged s) : Logged s' := by
  rw [Logged, h.core, h.disk]
  exact hl

theorem GuardSame.moves {s s' : St} (h : GuardSame s s') : GuardMoves s s' := by
  refine ⟨fun _ ↦ h.logged, ?_, h.writes⟩
  exact h.core ▸ List.prefix_refl _

instance : Tame GuardMoves where
  free h := (Tame.free (R := GuardSame) h).moves
  keyImported hash members s := (Tame.keyImported (R := GuardSame) hash members s).moves
  joinsSeen hashes s := (Tame.joinsSeen (R := GuardSame) hashes s).moves

/-- The state behind an append. -/
def appended (w : WriteOutcome) (r : Attested) (ws : List WriteOutcome) (s : St) : St where
  core := { s.core with guard := Guard.recorded w r s.core.guard }
  disk := { s.disk with guard := Guard.written w r s.disk.guard }
  env := s.env
  writes := ws

theorem recordGuard_cases (r : Attested) (s : St) : ∃ w ws, ws <:+ s.writes ∧
    (w = .done ∨ w ∈ s.writes) ∧ (recordGuard r s).2 = appended w r ws s ∧
      ((recordGuard r s).1 = .ok (.ok ()) → w = .done) := by
  obtain ⟨w, ws, hnext, hws, hw⟩ := nextWrite_cases s
  refine ⟨w, ws, hws, hw, ?_, ?_⟩
  · rw [recordGuard, Proc.bind_apply, hnext]
    cases w <;> rfl
  · rw [recordGuard, Proc.bind_apply, hnext]
    cases w with
    | done => exact fun _ ↦ rfl
    | failed e kept => exact fun h ↦ nomatch h
    | cut kept => exact fun h ↦ nomatch h

theorem guardMoves_appended {w : WriteOutcome} {ws : List WriteOutcome} {s : St}
    (hw : w = .done ∨ w ∈ s.writes) (hws : ws <:+ s.writes) (r : Attested) :
    GuardMoves s (appended w r ws s) := by
  have hgrows : s.core.guard <+: (appended w r ws s).core.guard := by
    rw [appended, Guard.recorded]
    split
    · exact List.prefix_append _ _
    · exact List.prefix_refl _
  refine ⟨fun hwhole hl ↦ ?_, hgrows, hws⟩
  have hw' : w.Whole := by
    rcases hw with rfl | hw
    · trivial
    · exact hwhole w hw
  cases w with
  | done =>
    have htake : r.line.take (Guard.arrived r .done) = r.line := List.take_length
    simp only [Logged, appended, Guard.written, Guard.recorded, htake, if_true, Option.getD_some,
      List.flatMap_append, List.flatMap_cons, List.flatMap_nil, List.append_nil]
    rw [hl]
  | failed e kept =>
    cases hw'
    simp [Logged, appended, Guard.written, Guard.recorded, Guard.arrived]
    exact hl
  | cut kept =>
    cases hw'
    simp [Logged, appended, Guard.written, Guard.recorded, Guard.arrived]
    exact hl

theorem guardMoves_recordGuard (r : Attested) : Moves GuardMoves (recordGuard r) := by
  intro s
  obtain ⟨w, ws, hws, hw, hs, -⟩ := recordGuard_cases r s
  rw [hs]
  exact guardMoves_appended hw hws r

section

variable (C : Crypto) (L : Sapling.Lib)

theorem guardSame_signSet (r : SetSignRequest) : Moves GuardSame (signSet C r) :=
  ends_signSet C (R := fun _ ↦ GuardSame)
    (ends_signOnce (R := fun _ ↦ GuardSame) (fun _ ↦ guardSame_change _) r)

/-- No request rewrites the log. -/
theorem guardMoves_handle (version : UInt32) (r : Request) :
    Moves GuardMoves (handle C L version r) :=
  moves_handle C L version r
    (fun x _ s ↦ (guardSame_signSet C x s).moves)
    (fun x _ ↦ ends_signAttestation C (R := fun _ ↦ GuardMoves)
      (ends_guardedAttestation C guardMoves_recordGuard) x)
    (fun x _ ↦ ends_cancelCosign C (R := fun _ ↦ GuardMoves)
      (ends_guardedAttestation C guardMoves_recordGuard) x)
    (fun _ s ↦ (guardSame_change _ s).moves) fun _ rs s ↦ (guardSame_importOnce rs s).moves

/-- Every request but two leaves the log alone. -/
theorem guardSame_handle (version : UInt32) {r : Request} (hattest : ∀ x, r ≠ .signAttestation x)
    (hcosign : ∀ x, r ≠ .cancelCosign x) : Moves GuardSame (handle C L version r) :=
  moves_handle C L version r (fun x _ ↦ guardSame_signSet C x) (fun x h ↦ absurd h (hattest x))
    (fun x h ↦ absurd h (hcosign x)) (fun _ ↦ guardSame_change _) fun _ ↦ guardSame_importOnce

/-! ## Worlds -/

/-- The records of the file. -/
def Disk.log (d : Disk) : List Attested := (Guard.load .done d.guard).1.toOption.getD []

theorem Disk.log_eq {d : Disk} {rs : List Attested}
    (h : d.guard.getD [] = rs.flatMap Attested.line) : d.log = rs := by
  rw [Disk.log, Guard.load_lines .done h]
  rfl

/-- The file is whole lines, and the process, if one runs, has its records. -/
structure World.Logged (w : World) : Prop where
  lines : w.disk.guard.getD [] = w.disk.log.flatMap Attested.line
  core : ∀ c, w.core = some c → c.guard = w.disk.log

/-- A start leaves whole lines alone and reads them. -/
theorem openSigner_log (network : Network) (w₁ w₂ : WriteOutcome) {d : Disk} {rs : List Attested}
    (h : d.guard.getD [] = rs.flatMap Attested.line) :
    (openSigner C network w₁ w₂ d).2.guard = d.guard ∧
      ∀ c, (openSigner C network w₁ w₂ d).1 = .ok c → c.guard = rs := by
  have honce : ∀ restored, (SignOnce.load restored w₁ d).2.guard = d.guard := by
    intro restored
    unfold SignOnce.load
    repeat' split
    all_goals rfl
  have hguard : ∀ restored, loadGuard w₂ (SignOnce.load restored w₁ d).2 =
      (.ok rs, (SignOnce.load restored w₁ d).2) := by
    intro restored
    have hlines : (SignOnce.load restored w₁ d).2.guard.getD [] = rs.flatMap Attested.line := by
      rw [honce]
      exact h
    rw [loadGuard, Guard.load_lines w₂ hlines]
  constructor
  · rcases openSigner_disk C network w₁ w₂ d with h | ⟨restored, h | h⟩
    · rw [h]
    · rw [h, honce]
    · rw [h, hguard, honce]
  · intro c hc
    have ho := openSigner_eq_ok C (Prod.ext hc rfl)
    have hg := ho.guard
    rw [hguard] at hg
    exact (Except.ok.inj (Prod.mk.inj hg).1).symm

variable (network : Network)

/-- An event whose appends to the log are not torn. -/
def Event.Untorn : Event → Prop
  | .request _ writes _ (.signAttestation _) => ∀ w ∈ writes, w.Whole
  | .request _ writes _ (.cancelCosign _) => ∀ w ∈ writes, w.Whole
  | _ => True

theorem logged_handle {c : Core} {d : Disk} {env : Env} {writes : List WriteOutcome}
    {version : UInt32} {r : Request} (he : (Event.request env writes version r).Untorn)
    (hl : Logged (startSt c d env writes)) :
    Logged (handle C L version r (startSt c d env writes)).2 := by
  cases r with
  | signAttestation r => exact (guardMoves_handle C L version _ _).logged he hl
  | cancelCosign r => exact (guardMoves_handle C L version _ _).logged he hl
  | _ => exact (guardSame_handle C L version (by simp) (by simp) _).logged hl

theorem World.logged_step {w : World} (hw : w.Logged) {e : Event} (he : e.Untorn) :
    (w.step C L network e).2.Logged ∧ w.disk.log <+: (w.step C L network e).2.disk.log := by
  cases e with
  | request env writes version r =>
    cases hc : w.core with
    | none =>
      have hstep : (w.step C L network (.request env writes version r)).2 = w := by
        simp [World.step, hc]
      rw [hstep]
      exact ⟨hw, List.prefix_refl _⟩
    | some c =>
      have hlog : Signer.Logged (startSt c w.disk env writes) := by
        rw [Signer.Logged, startSt, hw.core c hc]
        exact hw.lines
      have hmoves := guardMoves_handle C L version r (startSt c w.disk env writes)
      have hlog' := logged_handle C L he hlog
      have hd := Disk.log_eq hlog'
      have hgrows := hmoves.grows
      simp only [World.step, hc]
      refine ⟨⟨?_, ?_⟩, ?_⟩
      · rw [hd]
        exact hlog'
      · intro c' hc'
        rw [eq_of_survives hc', hd]
      · rw [hd, ← hw.core c hc]
        exact hgrows
  | restart w₁ w₂ =>
    obtain ⟨hguard, hcore⟩ := openSigner_log C network w₁ w₂ hw.lines
    have hd : (openSigner C network w₁ w₂ w.disk).2.log = w.disk.log := by
      rw [Disk.log, hguard, Disk.log]
    refine ⟨⟨?_, ?_⟩, ?_⟩
    · simp only [World.step, hd, hguard]
      exact hw.lines
    · intro c hc
      cases hx : (openSigner C network w₁ w₂ w.disk).1 with
      | error e => simp [World.step, hx, Except.toOption] at hc
      | ok c' =>
        simp only [World.step, hx, Except.toOption, Option.some.injEq] at hc
        subst hc
        simp only [World.step, hd]
        exact hcore c' hx
    · simp only [World.step, hd]
      exact List.prefix_refl _

/-! ## Prices of a run -/

/-- A price that a key states for a block. -/
structure PriceFact where
  key : String
  height : UInt32
  block : Arr 32
  price : UInt32
deriving DecidableEq

/-- A key states one price for a block. -/
def PriceFact.Agree (a b : PriceFact) : Prop :=
  a.key = b.key → a.height = b.height → a.block = b.block → a.price = b.price

/-- The price an answer states: that of a new attestation, or of a co-signature.  The key is the
public key in lower-case digits, the block what its hash decodes to. -/
def priceFact : Event × Answer → Option PriceFact
  | (.request _ _ _ (.signAttestation r), .response (.attestation a)) =>
    match txidFromHex r.blockHash with
    | .ok block =>
      if a.reused then none
      else some ⟨toAsciiLowercase r.pubkey, r.citedHeight, block, r.priceMicroUsd⟩
    | .error _ => none
  | (.request _ _ _ (.cancelCosign r), .response (.cosign a)) =>
    match txidFromHex r.blockHash with
    | .ok block => some ⟨toAsciiLowercase r.pubkey, r.refHeight, block, a.priceMicroUsd⟩
    | .error _ => none
  | _ => none

theorem priceFact_eq_some {x : Event × Answer} {b : PriceFact} (h : priceFact x = some b) :
    (∃ env writes version r a block,
      x = (.request env writes version (.signAttestation r), .response (.attestation a)) ∧
        a.reused = false ∧ txidFromHex r.blockHash = .ok block ∧
        b = ⟨toAsciiLowercase r.pubkey, r.citedHeight, block, r.priceMicroUsd⟩) ∨
      ∃ env writes version r a block,
        x = (.request env writes version (.cancelCosign r), .response (.cosign a)) ∧
          txidFromHex r.blockHash = .ok block ∧
          b = ⟨toAsciiLowercase r.pubkey, r.refHeight, block, a.priceMicroUsd⟩ := by
  unfold priceFact at h
  split at h
  · left
    split at h
    · rename_i block hblock
      split at h
      · cases h
      · rename_i hnew
        cases h
        exact ⟨_, _, _, _, _, block, rfl, by simpa using hnew, hblock, rfl⟩
    · cases h
  · right
    split at h
    · rename_i block hblock
      cases h
      exact ⟨_, _, _, _, _, block, rfl, hblock, rfl⟩
    · cases h
  · cases h

/-- The record states the price. -/
def Attested.States (r : Attested) (a : PriceFact) : Prop :=
  r.pubkey = a.key ∧ r.citedHeight = a.height ∧ txidFromHex r.blockHash = .ok a.block ∧
    r.priceMicroUsd = a.price

/-! ## What the guard lets through -/

theorem roleKey_eq_ok {k : KeyRef} {pubkey what : String} {s s' : St} {x : SecretKey × Arr 33}
    (h : roleKey C k pubkey what s = (.ok x, s')) :
    Hex.encode x.2.toList = toAsciiLowercase pubkey ∧ s' = s := by
  obtain rfl := (quiet_roleKey C k pubkey what).eq_of_ok h
  refine ⟨?_, rfl⟩
  cases k with
  | bip32 chain index =>
    obtain ⟨y, -, h⟩ := (quiet_transparent C chain index).bind_eq_ok h
    dsimp only at h
    split at h
    · simp at h
    · rename_i hne
      cases h
      exact not_not.mp hne
  | _ =>
    obtain ⟨y, t, hno, -⟩ := Proc.bind_eq_ok.mp h
    simp at hno

theorem mem_of_eq_concat {rs rs' : List Attested} {r : Attested} (h : rs' = rs ++ [r]) :
    r ∈ rs' := by
  rw [h]
  exact List.mem_append_right _ (List.mem_singleton_self r)

/-- A new attestation that was returned is in the log. -/
theorem freshAttestation_eq_ok {sk : SecretKey} {pk : Arr 33} {seq : UInt16}
    {price height : UInt32} {hash : String} {block : Arr 32} {sig : Arr 64} {reused : Bool}
    {s s' : St}
    (h : freshAttestation C sk pk seq price height hash block s = (.ok (sig, reused), s')) :
    reused = false ∧ s'.core.guard =
      s.core.guard ++ [⟨seq, Hex.encode pk.toList, height, hash, price, Hex.encode sig.toList⟩] := by
  unfold freshAttestation at h
  split at h
  · simp at h
  · obtain ⟨x, t, hrec, h⟩ := Proc.bind_eq_ok.mp h
    obtain ⟨_, hx, h⟩ := (quiet_orRefuse _ _ _).bind_eq_ok h
    obtain ⟨rfl, -⟩ := orRefuse_eq_ok.mp hx
    cases h
    obtain ⟨w, ws, -, -, hstate, hdone⟩ := recordGuard_cases ⟨seq, Hex.encode pk.toList, height, hash,
      price, Hex.encode (C.ecdsaSign (Proto.Attest.attestMessage C seq price height block) sk).toList⟩ s
    rw [hrec] at hstate hdone
    obtain rfl := hdone rfl
    dsimp only at hstate
    refine ⟨rfl, ?_⟩
    rw [hstate]
    rfl

/-- What a guarded attestation that was returned found or did: it was recorded already, under this
sequence number, with this price; or no record had the sequence number, none of the key's had
another price, and it is recorded now. -/
theorem guardedAttestation_eq_ok {sk : SecretKey} {pk : Arr 33} {seq : UInt16}
    {price height : UInt32} {hash : String} {sig : Arr 64} {reused : Bool} {s s' : St}
    (h : guardedAttestation C sk pk seq price height hash s = (.ok (sig, reused), s')) :
    (reused = true ∧ s' = s ∧ ∃ r, Guard.bySeq s.core.guard seq height (toAsciiLowercase hash) =
        some r ∧ r.priceMicroUsd = price ∧
        (Hex.decode r.sig).bind (Bytes.toArr? 64) = some sig) ∨
      (reused = false ∧
        (∀ r ∈ Guard.byKey s.core.guard (Hex.encode pk.toList) height (toAsciiLowercase hash),
          r.priceMicroUsd = price) ∧
        s'.core.guard = s.core.guard ++ [⟨seq, Hex.encode pk.toList, height, toAsciiLowercase hash,
          price, Hex.encode sig.toList⟩]) := by
  unfold guardedAttestation at h
  obtain ⟨block, -, h⟩ := (quiet_orHalt _ _ _).bind_eq_ok h
  obtain ⟨c, hc, h⟩ := quiet_core.bind_eq_ok h
  cases hc
  dsimp only at h
  cases hfind : (Guard.byKey s.core.guard (Hex.encode pk.toList) height
      (toAsciiLowercase hash)).find? fun r ↦ r.seq ≠ seq ∧ r.priceMicroUsd ≠ price with
  | some other => simp only [hfind, no_ne_ok] at h
  | none =>
    simp only [hfind] at h
    cases hseq : Guard.bySeq s.core.guard seq height (toAsciiLowercase hash) with
    | some prior =>
      left
      simp only [hseq] at h
      split at h
      · simp at h
      · rename_i hprice
        obtain ⟨σ, hσ, h⟩ := (quiet_orElse _ _ _).bind_eq_ok h
        cases h
        exact ⟨rfl, rfl, prior, rfl, not_not.mp hprice, (orElse_eq_ok.mp hσ).1⟩
    | none =>
      right
      simp only [hseq] at h
      obtain ⟨rfl, hguard⟩ := freshAttestation_eq_ok C h
      refine ⟨rfl, ?_, hguard⟩
      -- the sequence number is free, so it was the price that the search did not object to
      intro r hr
      have hr' := hr
      simp only [Guard.byKey, List.mem_filter, decide_eq_true_eq] at hr'
      by_contra hprice
      have hsame := List.find?_eq_none.mp hfind r hr
      have hfree := List.find?_eq_none.mp hseq r hr'.1
      simp only [decide_eq_true_eq, not_and, not_not] at hsame hfree
      exact hprice (hsame fun h ↦ hfree h hr'.2.2.1 hr'.2.2.2)

/-- The price read off a key's records is the price of each of them. -/
theorem priorPrice_eq_ok {height : UInt32} {rs : List Attested} {prior p : Option (UInt16 × UInt32)}
    (h : priorPrice height prior rs = .ok p) :
    (∀ q, prior = some q → ∃ n, p = some (n, q.2)) ∧
      ∀ r ∈ rs, ∃ n, p = some (n, r.priceMicroUsd) := by
  induction rs generalizing prior with
  | nil =>
    cases h
    exact ⟨fun q hq ↦ ⟨q.1, hq⟩, by simp⟩
  | cons r rs ih =>
    rw [priorPrice] at h
    obtain ⟨hany, h⟩ := Result.guard_eq_ok.mp h
    obtain ⟨hfirst, hrest⟩ := ih h
    obtain ⟨n, hn⟩ := hfirst _ rfl
    refine ⟨?_, ?_⟩
    · rintro q rfl
      have hq : q.2 = r.priceMicroUsd := by simpa using hany
      exact ⟨n, hq ▸ hn⟩
    · intro r' hr'
      rcases List.mem_cons.mp hr' with rfl | hr'
      · exact ⟨n, hn⟩
      · exact hrest r' hr'

/-- A co-signature states the price recorded, if there is one. -/
theorem cosignPrice_eq_ok {height : UInt32} {asked : Option UInt32} {n : UInt16} {q price : UInt32}
    {s s' : St} (h : cosignPrice height asked (some (n, q)) s = (.ok price, s')) : price = q := by
  cases asked with
  | none =>
    cases h
    rfl
  | some p =>
    rw [cosignPrice] at h
    split at h
    · simp at h
    · rename_i hpq
      cases h
      exact not_not.mp hpq

/-- A new attestation: none of the key's records under the request's spelling of the block has
another price, and the record of this one is in the log. -/
theorem signAttestation_eq_ok {r : AttestRequest} {a : AttestSigned} {s s' : St}
    (h : signAttestation C r s = (.ok a, s')) (hnew : a.reused = false) :
    (∀ x ∈ Guard.byKey s.core.guard (toAsciiLowercase r.pubkey) r.citedHeight
        (toAsciiLowercase r.blockHash), x.priceMicroUsd = r.priceMicroUsd) ∧
      ∃ x ∈ s'.core.guard, x.pubkey = toAsciiLowercase r.pubkey ∧ x.citedHeight = r.citedHeight ∧
        x.blockHash = toAsciiLowercase r.blockHash ∧ x.priceMicroUsd = r.priceMicroUsd := by
  unfold signAttestation at h
  split at h
  · simp at h
  · obtain ⟨⟨sk, pk⟩, hkey, h⟩ := (quiet_roleKey C _ _ _).bind_eq_ok h
    obtain ⟨⟨sig, reused⟩, t, hguarded, h⟩ := Proc.bind_eq_ok.mp h
    cases h
    have hpk := (roleKey_eq_ok C hkey).1
    dsimp only at hpk
    rcases guardedAttestation_eq_ok C hguarded with ⟨hold, -⟩ | ⟨-, hall, hx⟩
    · rw [hold] at hnew
      cases hnew
    · rw [hpk] at hall
      exact ⟨hall, _, mem_of_eq_concat hx, hpk, rfl, rfl, rfl⟩

/-- A co-signature: every one of the key's records under the request's spelling of the block has its
price, and the log has a record of the price, of this key unless it was found by its sequence
number alone. -/
theorem cancelCosign_eq_ok {r : CosignRequest} {a : Cosigned} {s s' : St}
    (h : cancelCosign C r s = (.ok a, s')) :
    (∀ x ∈ Guard.byKey s.core.guard (toAsciiLowercase r.pubkey) r.refHeight
        (toAsciiLowercase r.blockHash), x.priceMicroUsd = a.priceMicroUsd) ∧
      ((s'.core.guard = s.core.guard ∧ ∃ x, Guard.bySeq s.core.guard r.seq r.refHeight
          (toAsciiLowercase r.blockHash) = some x ∧ x.priceMicroUsd = a.priceMicroUsd) ∨
        ∃ x ∈ s'.core.guard, x.pubkey = toAsciiLowercase r.pubkey ∧ x.citedHeight = r.refHeight ∧
          x.blockHash = toAsciiLowercase r.blockHash ∧ x.priceMicroUsd = a.priceMicroUsd) := by
  unfold cancelCosign at h
  obtain ⟨⟨sk, pk⟩, hkey, h⟩ := (quiet_roleKey C _ _ _).bind_eq_ok h
  have hpk := (roleKey_eq_ok C hkey).1
  dsimp only at hpk
  obtain ⟨c, hc, h⟩ := quiet_core.bind_eq_ok h
  cases hc
  obtain ⟨prior, hprior, h⟩ := (quiet_orRefuse _ _ _).bind_eq_ok h
  obtain ⟨price, hprice, h⟩ := (quiet_cosignPrice _ _ _).bind_eq_ok h
  split at h
  · simp at h
  split at h
  · simp at h
  obtain ⟨⟨sig, reused⟩, t, hguarded, h⟩ := Proc.bind_eq_ok.mp h
  obtain ⟨set, -, h⟩ := (quiet_orHalt _ _ _).bind_eq_ok h
  obtain ⟨intent, -, h⟩ := (quiet_outPointOr _ _ _).bind_eq_ok h
  obtain ⟨block, -, h⟩ := (quiet_orHalt _ _ _).bind_eq_ok h
  cases h
  rw [hpk] at hprior
  constructor
  · intro x hx
    obtain ⟨n, hn⟩ := (priorPrice_eq_ok (orRefuse_eq_ok.mp hprior).1).2 x hx
    rw [hn] at hprice
    exact (cosignPrice_eq_ok hprice).symm
  · rcases guardedAttestation_eq_ok C hguarded with ⟨-, rfl, x, hx, hxprice, -⟩ | ⟨-, -, hx⟩
    · rw [toAsciiLowercase_toAsciiLowercase] at hx
      exact .inl ⟨rfl, x, hx, hxprice⟩
    · exact .inr ⟨_, mem_of_eq_concat hx, hpk, rfl, toAsciiLowercase_toAsciiLowercase _, rfl⟩

/-! ## One price -/

/-- Every record in memory of the key for the block is under the spelling of the hash that the
request comes down to. -/
def OneSpelling (w : World) (key : String) (height : UInt32) (hash : String) : Prop :=
  ∀ c x block, w.core = some c → x ∈ c.guard → x.pubkey = key → x.citedHeight = height →
    txidFromHex hash = .ok block → txidFromHex x.blockHash = .ok block →
    x.blockHash = toAsciiLowercase hash

/-- No append is torn, a request that states a price spells the block as the key's records do, and
a co-signature whose sequence number has a record finds one of its own key. -/
def PlainPrice (w : World) : Event → Prop
  | .request _ writes _ (.signAttestation r) =>
    (∀ x ∈ writes, x.Whole) ∧ OneSpelling w (toAsciiLowercase r.pubkey) r.citedHeight r.blockHash
  | .request _ writes _ (.cancelCosign r) =>
    (∀ x ∈ writes, x.Whole) ∧
      OneSpelling w (toAsciiLowercase r.pubkey) r.refHeight r.blockHash ∧
      ∀ c x, w.core = some c → Guard.bySeq c.guard r.seq r.refHeight
        (toAsciiLowercase r.blockHash) = some x → x.pubkey = toAsciiLowercase r.pubkey
  | _ => True

theorem PlainPrice.untorn {w : World} {e : Event} (h : PlainPrice w e) : e.Untorn := by
  cases e with
  | request env writes version r =>
    cases r with
    | signAttestation r => exact h.1
    | cancelCosign r => exact h.1
    | _ => trivial
  | restart => trivial

/-- The file has a record that states the price. -/
def HeldPrice (w : World) (a : PriceFact) : Prop := ∃ r ∈ w.disk.log, r.States a

/-- A price that a request stated: the log has it now, and the key's records under the request's
spelling of the block had no other. -/
theorem priceFact_step {w : World} {e : Event} {b : PriceFact} (he : PlainPrice w e)
    (h : priceFact (e, (w.step C L network e).1) = some b) :
    ∃ c c' hash, w.core = some c ∧ (w.step C L network e).2.core = some c' ∧
      txidFromHex hash = .ok b.block ∧ OneSpelling w b.key b.height hash ∧
      (∃ x ∈ c'.guard, x.States b) ∧
      ∀ x ∈ Guard.byKey c.guard b.key b.height (toAsciiLowercase hash),
        x.priceMicroUsd = b.price := by
  rcases priceFact_eq_some h with ⟨env, writes, version, r, a, block, hx, hnew, hblock, rfl⟩ |
    ⟨env, writes, version, r, a, block, hx, hblock, rfl⟩
  · obtain ⟨rfl, hans⟩ := Prod.mk.inj hx
    obtain ⟨c, s', hc, hok, hstep⟩ := World.step_eq_response C L (by simp) hans
    obtain ⟨out, t, hout, hret⟩ := Proc.bind_eq_ok.mp hok
    cases hret
    obtain ⟨hall, x, hx, hkey, hheight, hhash, hprice⟩ := signAttestation_eq_ok C hout hnew
    rw [hstep]
    refine ⟨c, s'.core, r.blockHash, hc, rfl, hblock, he.2, ⟨x, hx, hkey, hheight, ?_, hprice⟩, hall⟩
    rw [hhash, txidFromHex_toAsciiLowercase]
    exact hblock
  · obtain ⟨rfl, hans⟩ := Prod.mk.inj hx
    obtain ⟨c, s', hc, hok, hstep⟩ := World.step_eq_response C L (by simp) hans
    obtain ⟨out, t, hout, hret⟩ := Proc.bind_eq_ok.mp hok
    cases hret
    obtain ⟨hall, hcase⟩ := cancelCosign_eq_ok C hout
    rw [hstep]
    refine ⟨c, s'.core, r.blockHash, hc, rfl, hblock, he.2.1, ?_, hall⟩
    rcases hcase with ⟨hsame, x, hseq, hprice⟩ | ⟨x, hx, hkey, hheight, hhash, hprice⟩
    · have hfound := List.find?_some hseq
      simp only [decide_eq_true_eq] at hfound
      have hmem : x ∈ s'.core.guard := by
        rw [hsame]
        exact List.mem_of_find?_eq_some hseq
      refine ⟨x, hmem, he.2.2 c x hc hseq, hfound.2.1, ?_, hprice⟩
      rw [hfound.2.2, txidFromHex_toAsciiLowercase]
      exact hblock
    · refine ⟨x, hx, hkey, hheight, ?_, hprice⟩
      rw [hhash, txidFromHex_toAsciiLowercase]
      exact hblock

/-- A price that a request stated is on file now, and no other price of its key for the block was. -/
theorem heldPrice_step {w : World} {e : Event} {b : PriceFact} (hw : w.Logged)
    (he : PlainPrice w e) (hfact : priceFact (e, (w.step C L network e).1) = some b) :
    HeldPrice (w.step C L network e).2 b ∧ ∀ a, HeldPrice w a → a.Agree b := by
  have hw' := (World.logged_step C L network hw he.untorn).1
  obtain ⟨c, c', hash, hc, hc', hhash, hone, ⟨x, hx, hxb⟩, hall⟩ :=
    priceFact_step C L network he hfact
  rw [hw'.core c' hc'] at hx
  refine ⟨⟨x, hx, hxb⟩, ?_⟩
  rintro a ⟨r, hr, hkey, hheight, hblock, hprice⟩ hkeys hheights hblocks
  rw [← hw.core c hc] at hr
  rw [hkeys] at hkey
  rw [hheights] at hheight
  rw [hblocks] at hblock
  -- the earlier record is one of those the guard looked at
  have hspell := hone c r b.block hc hr hkey hheight hhash hblock
  rw [← hprice]
  refine hall r ?_
  simp [Guard.byKey, hr, hkey, hheight, hspell]

/-- **One price for a block.**  In a run without torn appends in which every request that states a
price spells its block as the key's records do, and no co-signature leans on another key's record,
no key states two prices for one height and block. -/
theorem priceFacts_agree {seed : SeedFile} {h : List (Event × Answer)} {w : World}
    (t : Trace (World.step C L network) PlainPrice (World.start seed) h w) :
    h.Pairwise fun y x ↦ ∀ a b, priceFact x = some a → priceFact y = some b → a.Agree b := by
  refine ((@Trace.held_and_agree _ _ _ _ _ _ _ _ _ World.Logged _ HeldPrice _ t) ?_ ?_ ?_ ?_).2
  · exact ⟨rfl, fun c hc ↦ nomatch hc⟩
  · intro w e hw he
    exact (World.logged_step C L network hw he.untorn).1
  · rintro w e a hw he ⟨r, hr, hra⟩
    exact ⟨r, (World.logged_step C L network hw he.untorn).2.subset hr, hra⟩
  · intro w e b hw he hfact
    exact heldPrice_step C L network hw he hfact

/-- A request that names a key of the account by its public key is let through. -/
theorem roleKey_of_account {k : Keyring} {x : ExtendedPrivKey} {chain index : UInt32}
    {pubkey what : String} {s : St} (hk : keys s = (.ok k, s)) (hchain : chain ≠ importedChain)
    (hrange : ¬(chain > 1 ∨ index ≥ hardened)) (hx : k.account.derive C [chain, index] = .ok x)
    (hpub : Hex.encode (C.publicKey x.key).toList = toAsciiLowercase pubkey) :
    roleKey C (.bip32 chain index) pubkey what s = (.ok (x.key, C.publicKey x.key), s) := by
  simp only [roleKey, Proc.bind_apply, transparent_of_account C hk hchain hrange hx]
  rw [if_neg (not_not.mpr hpub)]
  rfl

/-- A guarded attestation that meets no record of its sequence number and no other price of its key
is made and recorded. -/
theorem guardedAttestation_of_fresh {sk : SecretKey} {pk : Arr 33} {seq : UInt16}
    {price height : UInt32} {hash : String} {block : Arr 32} {s : St}
    (hblock : txidFromHex hash = .ok block)
    (hkey : ∀ r ∈ Guard.byKey s.core.guard (Hex.encode pk.toList) height (toAsciiLowercase hash),
      r.priceMicroUsd = price)
    (hseq : Guard.bySeq s.core.guard seq height (toAsciiLowercase hash) = none)
    (hverify : ∀ msg, C.verifyCompactSig pk msg (C.ecdsaSign msg sk) = true) (hw : s.writes = []) :
    let sig := C.ecdsaSign (Proto.Attest.attestMessage C seq price height block) sk
    guardedAttestation C sk pk seq price height hash s = (.ok (sig, false),
      appended .done ⟨seq, Hex.encode pk.toList, height, toAsciiLowercase hash, price,
        Hex.encode sig.toList⟩ [] s) := by
  have hfind : (Guard.byKey s.core.guard (Hex.encode pk.toList) height
      (toAsciiLowercase hash)).find? (fun r ↦ r.seq ≠ seq ∧ r.priceMicroUsd ≠ price) = none := by
    rw [List.find?_eq_none]
    intro r hr
    simp [hkey r hr]
  have hnext : nextWrite s = (.ok .done, s) := by simp [nextWrite, hw]
  simp only [guardedAttestation, Proc.bind_apply, txidFromHex_toAsciiLowercase, hblock, orHalt,
    Proc.lift_apply, core, hfind, hseq, freshAttestation, hverify, Bool.not_true, Bool.false_eq_true,
    if_false, recordGuard, hnext, modifyCore, modifyDisk, orRefuse, Proc.modify_apply,
    Proc.pure_apply]
  rw [appended, hw]

/-- One that meets a record of its sequence number with its price, and no other price of its key, is
taken from it. -/
theorem guardedAttestation_of_record {sk : SecretKey} {pk : Arr 33} {seq : UInt16}
    {price height : UInt32} {hash : String} {block : Arr 32} {sig : Arr 64} {prior : Attested} {s : St}
    (hblock : txidFromHex hash = .ok block)
    (hkey : ∀ r ∈ Guard.byKey s.core.guard (Hex.encode pk.toList) height (toAsciiLowercase hash),
      r.priceMicroUsd = price)
    (hseq : Guard.bySeq s.core.guard seq height (toAsciiLowercase hash) = some prior)
    (hprice : prior.priceMicroUsd = price) (hsig : prior.sig = Hex.encode sig.toList) :
    guardedAttestation C sk pk seq price height hash s = (.ok (sig, true), s) := by
  have hfind : (Guard.byKey s.core.guard (Hex.encode pk.toList) height
      (toAsciiLowercase hash)).find? (fun r ↦ r.seq ≠ seq ∧ r.priceMicroUsd ≠ price) = none := by
    rw [List.find?_eq_none]
    intro r hr
    simp [hkey r hr]
  simp only [guardedAttestation, Proc.bind_apply, txidFromHex_toAsciiLowercase, hblock, orHalt,
    Proc.lift_apply, core, hfind, hseq, hprice, ne_eq, not_true_eq_false, if_false, hsig,
    Hex.decode_encode, Option.bind_some, Bytes.toArr?_toList, orElse, Proc.pure_apply]

theorem signAttestation_of_guarded {r : AttestRequest} {sk : SecretKey} {pk : Arr 33} {sig : Arr 64}
    {reused : Bool} {s s' : St} (hprice : ¬ r.priceMicroUsd.toNat < Proto.Attest.priceMin)
    (hkey : roleKey C r.key r.pubkey "an attestation" s = (.ok (sk, pk), s))
    (hguarded : guardedAttestation C sk pk r.seq r.priceMicroUsd r.citedHeight r.blockHash s =
      (.ok (sig, reused), s')) :
    signAttestation C r s = (.ok ⟨Hex.encode (Proto.Attest.encodeAttestation r.seq r.priceMicroUsd
      r.citedHeight sig), reused⟩, s') := by
  rw [signAttestation, if_neg hprice]
  simp only [Proc.bind_apply, hkey, hguarded]
  rfl

theorem answer_signAttestation {r : AttestRequest} {a : AttestSigned} {s s' : St}
    (h : signAttestation C r s = (.ok a, s')) :
    answer C L (.signAttestation r) s = (.ok (.attestation a), s') := by
  rw [answer, Proc.bind_apply, h]
  rfl

end

/-! ## A block and its spellings -/

/-- The public key of the sample signer, in digits. -/
def samplePub : String := Hex.encode (2 :: List.replicate 32 0)

/-- The request of its first key to attest a price of the block at height 10. -/
def sampleAttest (seq : UInt16) (price : UInt32) (hash : String) : AttestRequest where
  key := .bip32 0 0
  pubkey := samplePub
  seq := seq
  priceMicroUsd := price
  citedHeight := 10
  blockHash := hash

@[inherit_doc sampleAttest]
def sampleAttestEvent (seq : UInt16) (price : UInt32) (hash : String) : Event :=
  .request sampleEnv [] protoVersion (.signAttestation (sampleAttest seq price hash))

/-- Its record. -/
def sampleAttested (seq : UInt16) (price : UInt32) (hash sig : String) : Attested :=
  ⟨seq, samplePub, 10, toAsciiLowercase hash, price, sig⟩

/-- The sample signer with these records in memory, and this log on disk. -/
def sampleLogged (rs : List Attested) (file : Option Bytes) : St :=
  startSt { sampleCore with guard := rs } { sampleDisk with guard := file } sampleEnv []

@[inherit_doc sampleLogged]
def sampleLoggedWorld (rs : List Attested) (file : Option Bytes) : World :=
  ⟨some (sampleLogged rs file).core, (sampleLogged rs file).disk⟩

/-- The price stated. -/
def samplePrice (price : UInt32) : PriceFact := ⟨samplePub, 10, sampleSet, price⟩

theorem samplePub_lower : toAsciiLowercase samplePub = samplePub := by decide +kernel

theorem sampleRole {s : St} (hsealed : s.core.ks.sealed = none) (hkeys : s.core.keys = sampleKeys)
    (what : String) : ∃ sk pk, roleKey sampleCrypto (.bip32 0 0) samplePub what s = (.ok (sk, pk), s) ∧
      Hex.encode pk.toList = samplePub := by
  obtain ⟨k, x, hk, hx⟩ := sampleKeys_derive
  have hpub : Hex.encode (sampleCrypto.publicKey x.key).toList = samplePub := rfl
  exact ⟨x.key, _, roleKey_of_account sampleCrypto (keys_of_clear hsealed (hkeys.trans hk)) (by decide)
    (by decide) hx (hpub.trans samplePub_lower.symm), hpub⟩

/-- Where no record of the block has its sequence number or another price, the sample request is
answered by a new attestation. -/
theorem sampleStep_attest {seq : UInt16} {price : UInt32} {hash : String} {rs : List Attested}
    (file : Option Bytes) (hprice : ¬ price.toNat < Proto.Attest.priceMin)
    (hblock : txidFromHex hash = .ok sampleSet)
    (hkey : ∀ r ∈ rs, r.blockHash = toAsciiLowercase hash → r.priceMicroUsd = price)
    (hseq : ∀ r ∈ rs, r.blockHash = toAsciiLowercase hash → r.seq ≠ seq) :
    ∃ a sig file', World.step sampleCrypto .blank .regtest (sampleLoggedWorld rs file)
        (sampleAttestEvent seq price hash) =
        (a, sampleLoggedWorld (rs ++ [sampleAttested seq price hash sig]) file') ∧
      priceFact (sampleAttestEvent seq price hash, a) = some (samplePrice price) := by
  obtain ⟨sk, pk, hrole, hpk⟩ := sampleRole (s := sampleLogged rs file) rfl rfl "an attestation"
  have hprices : ∀ r ∈ Guard.byKey (sampleLogged rs file).core.guard (Hex.encode pk.toList) 10
      (toAsciiLowercase hash), r.priceMicroUsd = price := by
    intro r hr
    simp only [Guard.byKey, List.mem_filter, decide_eq_true_eq] at hr
    exact hkey r hr.1 hr.2.2.2
  have hfree : Guard.bySeq (sampleLogged rs file).core.guard seq 10 (toAsciiLowercase hash) =
      none := by
    rw [Guard.bySeq, List.find?_eq_none]
    intro r hr
    simp only [decide_eq_true_eq, not_and]
    exact fun hs _ hb ↦ hseq r hr hb hs
  have hguarded := (@guardedAttestation_of_fresh sampleCrypto sk _ _ _ _ _ _ _) hblock hprices hfree
    (fun _ ↦ rfl) rfl
  generalize sampleCrypto.ecdsaSign _ sk = sig at hguarded
  dsimp only at hguarded
  rw [hpk] at hguarded
  have hsign := signAttestation_of_guarded sampleCrypto
    (r := sampleAttest seq price hash) hprice hrole hguarded
  generalize Hex.encode (Proto.Attest.encodeAttestation _ _ _ sig) = hex at hsign
  have hans := answer_signAttestation sampleCrypto .blank hsign
  refine ⟨_, Hex.encode sig.toList, _, World.step_of_answer sampleCrypto .blank hans, ?_⟩
  have hfact : priceFact (sampleAttestEvent seq price hash,
      .response (.attestation ⟨hex, false⟩)) =
      some ⟨toAsciiLowercase samplePub, 10, sampleSet, price⟩ := by
    simp [priceFact, sampleAttestEvent, sampleAttest, hblock]
  rw [samplePub_lower] at hfact
  exact hfact

/-- The block hash with a blank before it. -/
def sampleBlank : String := String.ofList (' ' :: (txidHex sampleSet).toList)

theorem sampleSet_blank : txidFromHex sampleBlank = .ok sampleSet := by decide +kernel

theorem sampleBlank_ne : toAsciiLowercase (txidHex sampleSet) ≠ toAsciiLowercase sampleBlank := by
  decide +kernel

/-- Two prices, the second under the other spelling. -/
def twoPrices : List Event :=
  [.restart .done .done, sampleAttestEvent 1 100 (txidHex sampleSet),
    sampleAttestEvent 1 101 sampleBlank]

theorem not_agree_twoPrices :
    Trace (World.step sampleCrypto .blank .regtest) (fun _ e ↦ e.Writes) (World.start sampleSeed)
        (sampleRun twoPrices).1 (sampleRun twoPrices).2 ∧
      (sampleRun twoPrices).1.filterMap priceFact = [samplePrice 101, samplePrice 100] ∧
      ¬ (samplePrice 100).Agree (samplePrice 101) := by
  refine ⟨Trace.trace_run ⟨trivial, rfl, rfl, trivial⟩, ?_, ?_⟩
  · obtain ⟨a, sig, file, ha, hfa⟩ := @sampleStep_attest 1 100
      (txidHex sampleSet) [] none (by decide) sampleSet_lower (by simp) (by simp)
    obtain ⟨b, sig', file', hb, hfb⟩ := @sampleStep_attest 1 101
      sampleBlank [sampleAttested 1 100 (txidHex sampleSet) sig] file (by decide)
      sampleSet_blank (by simpa [sampleAttested] using sampleBlank_ne)
      (by simpa [sampleAttested] using sampleBlank_ne)
    have hstart : World.step sampleCrypto .blank .regtest (World.start sampleSeed)
        (.restart .done .done) = (.started (.ok ()), sampleLoggedWorld [] none) := sampleStart
    simp only [sampleRun, Trace.run, twoPrices, Trace.runFrom, hstart, ha, List.nil_append, hb,
      List.filterMap_cons, hfa, hfb, List.filterMap_nil]
    rfl
  · intro h
    exact absurd (h rfl rfl rfl) (by decide)

/-- The same price under two sequence numbers. -/
def twoSeqs : List Event :=
  [.restart .done .done, sampleAttestEvent 1 100 (txidHex sampleSet),
    sampleAttestEvent 2 100 (txidHex sampleSet)]

theorem priceFacts_agree_twoSeqs :
    (sampleRun twoSeqs).1.filterMap priceFact = [samplePrice 100, samplePrice 100] ∧
      (sampleRun twoSeqs).1.Pairwise
        fun y x ↦ ∀ a b, priceFact x = some a → priceFact y = some b → a.Agree b := by
  obtain ⟨a, sig, file, ha, hfa⟩ := @sampleStep_attest 1 100
    (txidHex sampleSet) [] none (by decide) sampleSet_lower (by simp) (by simp)
  obtain ⟨b, sig', file', hb, hfb⟩ := @sampleStep_attest 2 100
    (txidHex sampleSet) [sampleAttested 1 100 (txidHex sampleSet) sig] file
    (by decide) sampleSet_lower (by simp [sampleAttested]) (by simp [sampleAttested])
  have hstart : World.step sampleCrypto .blank .regtest (World.start sampleSeed)
      (.restart .done .done) = (.started (.ok ()), sampleLoggedWorld [] none) := sampleStart
  have hplain : Trace.Guarded (World.step sampleCrypto .blank .regtest) PlainPrice
      (World.start sampleSeed) twoSeqs := by
    simp only [twoSeqs, Trace.Guarded, hstart, ha, List.nil_append, and_true]
    refine ⟨trivial, ⟨by simp, ?_⟩, by simp, ?_⟩
    · intro c x block hc hx
      cases hc
      cases hx
    · intro c x block hc hx _ _ _ _
      cases hc
      obtain rfl := List.mem_singleton.mp hx
      rfl
  refine ⟨?_, priceFacts_agree sampleCrypto .blank .regtest (Trace.trace_run hplain)⟩
  simp only [sampleRun, Trace.run, twoSeqs, Trace.runFrom, hstart, ha, List.nil_append, hb,
    List.filterMap_cons, hfa, hfb, List.filterMap_nil]
  rfl

end Yew.Signer
