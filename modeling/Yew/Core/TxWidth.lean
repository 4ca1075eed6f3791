import Yew.Core.TxCodec

/-!
# The parser on narrower machines

The counts of the shielded part are read as 64-bit numbers and then narrowed to `usize`, so what
the parser skips and returns depends on the width of a pointer.  `wireAt` reads the same bytes and
keeps the counts as they stand there.  The parser of a narrow machine forgets their high bits; the
parser of a 64-bit machine accepts the same bytes only if there are none to forget.

The parser is `parse` of `core/src/tx.rs`; the browser wallet runs it on 32 bits.  A byte string
that holds as many shielded parts as would lose a high bit does not fit an address space, so the
counts are what the bytes say, not what they hold.
-/

namespace Yew.Tx

variable {α β : Type}

/-! ## Readers that accept less -/

/-- On at most `N` bytes, `x` is `y` with the results outside `Q` refused. -/
def Sifts (N : Nat) (y x : Read α) (Q : α → Prop) : Prop :=
  ∀ r : Cursor, r.rest.length < N → ∀ a r', x r = .ok (a, r') ↔ y r = .ok (a, r') ∧ Q a

theorem read_bind_eq_ok {x : Read α} {f : α → Read β} {r r'' : Cursor} {b : β} :
    (x >>= f) r = .ok (b, r'') ↔ ∃ a r', x r = .ok (a, r') ∧ f a r' = .ok (b, r'') := by
  simp only [Bind.bind, StateT.bind]
  cases x r with
  | error e => simp [Except.bind]
  | ok p =>
    obtain ⟨a, r'⟩ := p
    simp [Except.bind]

namespace Sifts

variable {N : Nat}

theorem of_takes {x : Read α} {Q : α → Prop} (h : Takes x fun _ a ↦ Q a) : Sifts N x x Q := by
  intro r _ a r'
  refine (and_iff_left_of_imp fun hr ↦ ?_).symm
  obtain ⟨-, -, hQ⟩ := h r r' a hr
  exact hQ

/-- What was refused on the way does not come back. -/
theorem bind {y x : Read α} {g f : α → Read β} {P Q : α → Prop} {Q' : β → Prop}
    (hx : Sifts N y x Q) (hy : Takes y fun _ a ↦ P a)
    (hf : ∀ a, P a → Q a → Sifts N (g a) (f a) Q')
    (hback : ∀ a r b r', g a r = .ok (b, r') → Q' b → Q a) :
    Sifts N (y >>= g) (x >>= f) Q' := by
  intro r hr b r''
  have hrun {a : α} {r' : Cursor} (h : y r = .ok (a, r')) : r'.rest.length < N ∧ P a := by
    obtain ⟨u, hu, hP⟩ := hy r r' a h
    rw [hu, List.length_append] at hr
    exact ⟨by omega, hP⟩
  simp only [read_bind_eq_ok]
  constructor
  · rintro ⟨a, r', hxr, hfr⟩
    obtain ⟨hyr, hQ⟩ := (hx r hr a r').mp hxr
    obtain ⟨hshort, hP⟩ := hrun hyr
    obtain ⟨hgr, hQ'⟩ := (hf a hP hQ r' hshort b r'').mp hfr
    exact ⟨⟨a, r', hyr, hgr⟩, hQ'⟩
  · rintro ⟨⟨a, r', hyr, hgr⟩, hQ'⟩
    have hQ := hback a r' b r'' hgr hQ'
    obtain ⟨hshort, hP⟩ := hrun hyr
    exact ⟨a, r', (hx r hr a r').mpr ⟨hyr, hQ⟩, (hf a hP hQ r' hshort b r'').mpr ⟨hgr, hQ'⟩⟩

/-- A read that is the same on both sides. -/
theorem same_bind {x : Read α} {g f : α → Read β} {P : α → Prop} {Q' : β → Prop}
    (hx : Takes x fun _ a ↦ P a) (hf : ∀ a, P a → Sifts N (g a) (f a) Q') :
    Sifts N (x >>= g) (x >>= f) Q' :=
  (of_takes (hx.mono fun _ _ _ ↦ trivial)).bind hx (fun a hP _ ↦ hf a hP)
    fun _ _ _ _ _ _ ↦ trivial

end Sifts

/-! ## The counts as they stand -/

/-- `skipDescriptions` with the count as it stands: what is skipped is counted in `usize`. -/
def wireDescriptions (w size : Nat) : Read Nat := do
  let count ← compactSize
  if count % 2 ^ w * size < 2 ^ w then
    let _ ← take (count % 2 ^ w * size)
    return count
  else truncated

/-- The counts in `usize`. -/
def ShieldedSummary.narrow (w : Nat) (s : ShieldedSummary) : ShieldedSummary :=
  { s with
    spends := s.spends % 2 ^ w, outputs := s.outputs % 2 ^ w, joinsplits := s.joinsplits % 2 ^ w }

/-- The counts are `usize`s already. -/
def ShieldedSummary.Narrow (w : Nat) (s : ShieldedSummary) : Prop :=
  s.spends < 2 ^ w ∧ s.outputs < 2 ^ w ∧ s.joinsplits < 2 ^ w

instance (w : Nat) (s : ShieldedSummary) : Decidable (s.Narrow w) :=
  inferInstanceAs (Decidable (_ ∧ _ ∧ _))

theorem ShieldedSummary.Narrow.narrow_eq {w : Nat} {s : ShieldedSummary} (h : s.Narrow w) :
    s.narrow w = s := by
  obtain ⟨hspends, houtputs, hjoinsplits⟩ := h
  rw [narrow, Nat.mod_eq_of_lt hspends, Nat.mod_eq_of_lt houtputs, Nat.mod_eq_of_lt hjoinsplits]

/-- `readBindingSig`, which looks at the counts in `usize`. -/
def wireBindingSig (w : Nat) (v4 : Bool) (s : ShieldedSummary) : Read ShieldedSummary := do
  let _ ← readBindingSig v4 (s.narrow w)
  return s

/-- `readJoinsplits`. -/
def wireJoinsplits (w : Nat) (header : UInt32) (v4 : Bool) (s : ShieldedSummary) :
    Read ShieldedSummary :=
  if 2 ≤ Transaction.versionOf header then do
    let joinsplits ← wireDescriptions w (if v4 then joinsplitGrothSize else joinsplitPhgrSize)
    if joinsplits % 2 ^ w > 0 then do
      let _ ← take (joinsplitPubkeySize + joinsplitSigSize)
      wireBindingSig w v4 { s with joinsplits }
    else wireBindingSig w v4 { s with joinsplits }
  else wireBindingSig w v4 s

/-- `readShielded`. -/
def wireShielded (w : Nat) (header group : UInt32) : Read ShieldedSummary :=
  if Transaction.saplingV4Of header group then do
    let valueBalance ← readI64
    let spends ← wireDescriptions w spendDescriptionSize
    let outputs ← wireDescriptions w outputDescriptionSize
    wireJoinsplits w header true ⟨spends, outputs, 0, valueBalance⟩
  else wireJoinsplits w header false .empty

/-- `readBody`. -/
def wireBody (w : Nat) (header group : UInt32) : Read Transaction := do
  let vin ← readMany readTxin (← compactSize)
  let vout ← readMany readTxout (← compactSize)
  let lockTime ← readU32
  let expiryHeight ← if Transaction.overwinteredOf header then readU32 else pure 0
  let shielded ← wireShielded w header group
  return { header, versionGroupId := group, vin, vout, lockTime, expiryHeight, shielded }

/-- `readTransaction`. -/
def wireTransaction (w : Nat) : Read Transaction := do
  let header ← readU32
  let group ← if Transaction.overwinteredOf header then readU32 else pure 0
  if Transaction.overwinteredOf header && !(Transaction.overwinterV3Of header group ||
      Transaction.saplingV4Of header group) then throw (.version header group)
  else wireBody w header group

/-- The transaction that a machine of width `w` reads, its shielded counts as they stand in the
bytes. -/
def Transaction.wireAt (w : Nat) (bytes : Bytes) : Option Transaction :=
  match wireTransaction w ⟨0, bytes⟩ with
  | .error _ => none
  | .ok (t, r) => if r.rest.isEmpty then some t else none

/-! ## What a narrow machine returns -/

theorem skipDescriptions_eq (w size : Nat) :
    skipDescriptions w size = (· % 2 ^ w) <$> wireDescriptions w size := by
  rw [skipDescriptions, wireDescriptions, map_bind]
  refine congrArg (compactSize >>= ·) (funext fun count ↦ ?_)
  dsimp only
  split_ifs
  · simp
  · rfl

theorem readBindingSig_eq (w : Nat) (v4 : Bool) (s : ShieldedSummary) :
    readBindingSig v4 (s.narrow w) = ShieldedSummary.narrow w <$> wireBindingSig w v4 s := by
  rw [wireBindingSig, readBindingSig]
  split_ifs
  · simp
  · simp

theorem readJoinsplits_eq (w : Nat) (header : UInt32) (v4 : Bool) (s : ShieldedSummary) :
    readJoinsplits w header v4 (s.narrow w) =
      ShieldedSummary.narrow w <$> wireJoinsplits w header v4 s := by
  have hsig (n : Nat) : readBindingSig v4 { s.narrow w with joinsplits := n % 2 ^ w } =
      ShieldedSummary.narrow w <$> wireBindingSig w v4 { s with joinsplits := n } :=
    readBindingSig_eq w v4 { s with joinsplits := n }
  rw [readJoinsplits, wireJoinsplits]
  split
  · rw [skipDescriptions_eq, map_bind, bind_map_left]
    refine congrArg (wireDescriptions w _ >>= ·) (funext fun n ↦ ?_)
    split
    · rw [map_bind, hsig]
    · rw [hsig]
  · exact readBindingSig_eq w v4 s

theorem readShielded_narrow (w : Nat) (header group : UInt32) :
    readShielded w header group =
      ShieldedSummary.narrow w <$> wireShielded w header group := by
  have hempty : ShieldedSummary.empty = ShieldedSummary.narrow w .empty := by
    simp [ShieldedSummary.empty, ShieldedSummary.narrow]
  rw [readShielded_eq, wireShielded]
  cases Transaction.saplingV4Of header group with
  | true =>
    simp only [if_true, map_bind, skipDescriptions_eq, bind_map_left, ← readJoinsplits_eq]
    simp only [ShieldedSummary.narrow, Nat.zero_mod]
  | false =>
    simp only [Bool.false_eq_true, if_false]
    rw [← readJoinsplits_eq, ← hempty]

/-- The narrow machine's transaction. -/
def Transaction.narrow (w : Nat) (t : Transaction) : Transaction :=
  { t with shielded := t.shielded.narrow w }

theorem readBody_narrow (w : Nat) (header group : UInt32) :
    readBody w header group = Transaction.narrow w <$> wireBody w header group := by
  rw [readBody, wireBody]
  cases Transaction.overwinteredOf header <;>
    simp only [readShielded_narrow, map_bind, bind_map_left, if_true, Bool.false_eq_true,
      if_false] <;> rfl

theorem readTransaction_narrow (w : Nat) :
    readTransaction w = Transaction.narrow w <$> wireTransaction w := by
  rw [readTransaction_eq, wireTransaction, map_bind]
  refine congrArg (readU32 >>= ·) (funext fun header ↦ ?_)
  have htail (group : UInt32) : (if Transaction.overwinteredOf header &&
        !(Transaction.overwinterV3Of header group || Transaction.saplingV4Of header group) then
      throw (.version header group) else readBody w header group : Read Transaction) =
      Transaction.narrow w <$> if Transaction.overwinteredOf header &&
          !(Transaction.overwinterV3Of header group || Transaction.saplingV4Of header group) then
        throw (.version header group) else wireBody w header group := by
    split
    · rfl
    · exact readBody_narrow w header group
  simp only [htail]
  cases Transaction.overwinteredOf header <;> simp only [map_bind, if_true, Bool.false_eq_true,
      if_false]

/-- The parser of a narrow machine returns what stands in the bytes, its counts narrowed. -/
theorem Transaction.toOption_parseAt (w : Nat) (b : Bytes) :
    (parseAt w b).toOption = (wireAt w b).map (narrow w) := by
  rw [parseAt, wireAt, readTransaction_narrow]
  simp only [Functor.map, StateT.map]
  cases wireTransaction w ⟨0, b⟩ with
  | error e => rfl
  | ok p =>
    obtain ⟨t, r⟩ := p
    simp only [Bind.bind, Except.bind, Pure.pure, Except.pure]
    split
    · rfl
    · rfl

/-! ## What a wide machine accepts -/

/-- The bytes skipped were there. -/
theorem of_skip {n count a : Nat} {r r' : Cursor}
    (h : (take n >>= fun _ ↦ pure count : Read Nat) r = .ok (a, r')) :
    n ≤ r.rest.length ∧ a = count := by
  have hskip : Takes (take n >>= fun _ ↦ pure count) fun u a ↦ a = count ∧ u.length = n :=
    (takes_take n).map fun _ _ h ↦ ⟨rfl, h.2⟩
  obtain ⟨u, hu, rfl, hlen⟩ := hskip r r' a h
  rw [hu, List.length_append]
  exact ⟨by omega, rfl⟩

theorem takes_wireDescriptions (w size : Nat) :
    Takes (wireDescriptions w size) fun _ _ ↦ True := by
  refine takes_compactSize.bind fun u n _ ↦ ?_
  split
  · exact (takes_take _).map fun _ _ _ ↦ trivial
  · exact .truncated _

/-- Fewer than `2 ^ w` bytes hold no `2 ^ w` descriptions. -/
theorem sifts_skipDescriptions {w size : Nat} (hw : w ≤ 64) (hsize : 0 < size) :
    Sifts (2 ^ w) (wireDescriptions w size) (skipDescriptions 64 size) (· < 2 ^ w) := by
  have hpow : 2 ^ w ≤ 2 ^ 64 := Nat.pow_le_pow_right (by decide) hw
  refine Sifts.same_bind (takes_compactSize.mono fun _ _ h ↦ h.1) fun n hn r hr a r' ↦ ?_
  have hle : n ≤ n * size := Nat.le_mul_of_pos_right n hsize
  rw [Nat.mod_eq_of_lt hn]
  -- as many descriptions as the bytes hold fit in either width
  have hwide (h : (if n * size < 2 ^ 64 then take (n * size) >>= fun _ ↦ pure n else truncated
      : Read Nat) r = .ok (a, r')) : n * size < 2 ^ w ∧ a = n := by
    split at h
    · obtain ⟨hlen, rfl⟩ := of_skip h
      exact ⟨by omega, rfl⟩
    · cases h
  by_cases hfits : n * size < 2 ^ w
  · have hsmall : n < 2 ^ w := by omega
    rw [Nat.mod_eq_of_lt hsmall, if_pos hfits, if_pos (by omega)]
    refine (and_iff_left_of_imp fun h ↦ ?_).symm
    obtain ⟨-, rfl⟩ := of_skip h
    exact hsmall
  · refine ⟨fun h ↦ absurd (hwide h).1 hfits, ?_⟩
    rintro ⟨h, ha⟩
    split at h
    · rename_i hskip
      obtain ⟨-, rfl⟩ := of_skip h
      rw [Nat.mod_eq_of_lt ha] at hskip
      exact absurd hskip hfits
    · cases h

theorem takes_wireBindingSig (w : Nat) (v4 : Bool) (s : ShieldedSummary) :
    Takes (wireBindingSig w v4 s) fun _ s' ↦ s' = s :=
  (takes_readBindingSig v4 _).map fun _ _ _ ↦ rfl

/-- What stands behind the JoinSplits. -/
theorem takes_joinsplitSig (w : Nat) (v4 : Bool) (s : ShieldedSummary) (n : Nat) :
    Takes (if n % 2 ^ w > 0 then do
        let _ ← take (joinsplitPubkeySize + joinsplitSigSize)
        wireBindingSig w v4 { s with joinsplits := n }
      else wireBindingSig w v4 { s with joinsplits := n })
      fun _ s' ↦ s' = { s with joinsplits := n } := by
  split
  · exact (takes_take _).bind fun _ _ _ ↦ takes_wireBindingSig w v4 _
  · exact takes_wireBindingSig w v4 _

/-- The counts that were read already stay. -/
theorem takes_wireJoinsplits (w : Nat) (header : UInt32) (v4 : Bool) (s : ShieldedSummary) :
    Takes (wireJoinsplits w header v4 s) fun _ s' ↦
      s'.spends = s.spends ∧ s'.outputs = s.outputs := by
  rw [wireJoinsplits]
  split
  · refine (takes_wireDescriptions w _).bind fun u n _ ↦ (takes_joinsplitSig w v4 s n).mono ?_
    rintro _ _ rfl
    exact ⟨rfl, rfl⟩
  · refine (takes_wireBindingSig w v4 _).mono ?_
    rintro _ _ rfl
    exact ⟨rfl, rfl⟩

theorem sifts_readBindingSig {N w : Nat} (v4 : Bool) {s : ShieldedSummary} (hs : s.Narrow w) :
    Sifts N (wireBindingSig w v4 s) (readBindingSig v4 s) (·.Narrow w) := by
  have heq : wireBindingSig w v4 s = readBindingSig v4 s := by
    rw [wireBindingSig, hs.narrow_eq, readBindingSig]
    split_ifs <;> simp
  rw [heq]
  refine .of_takes ((takes_readBindingSig v4 s).mono ?_)
  rintro _ _ ⟨rfl, -⟩
  exact hs

theorem sifts_readJoinsplits {w : Nat} (hw : w ≤ 64) (header : UInt32) (v4 : Bool)
    {s : ShieldedSummary} (hs : s.Narrow w) :
    Sifts (2 ^ w) (wireJoinsplits w header v4 s) (readJoinsplits 64 header v4 s)
      (·.Narrow w) := by
  obtain ⟨hspends, houtputs, -⟩ := id hs
  rw [readJoinsplits, wireJoinsplits]
  split
  · refine (sifts_skipDescriptions hw ?_).bind (takes_wireDescriptions w _) ?_ ?_
    · cases v4 <;> decide
    · intro n _ hn
      have hn' : ShieldedSummary.Narrow w { s with joinsplits := n } := ⟨hspends, houtputs, hn⟩
      rw [Nat.mod_eq_of_lt hn]
      split
      · exact .same_bind ((takes_take _).mono fun _ _ _ ↦ trivial) fun _ _ ↦
          sifts_readBindingSig v4 hn'
      · exact sifts_readBindingSig v4 hn'
    · intro n r s' r' h hs'
      obtain ⟨-, -, rfl⟩ := takes_joinsplitSig w v4 s n r r' s' h
      exact hs'.2.2
  · exact sifts_readBindingSig v4 hs

theorem sifts_readShielded {w : Nat} (hw : w ≤ 64) (header group : UInt32) :
    Sifts (2 ^ w) (wireShielded w header group) (readShielded 64 header group)
      (·.Narrow w) := by
  have hpos : 0 < 2 ^ w := Nat.two_pow_pos w
  rw [readShielded_eq, wireShielded]
  cases Transaction.saplingV4Of header group with
  | true =>
    simp only [if_true]
    refine .same_bind (takes_readI64.mono fun _ _ _ ↦ trivial) fun vb _ ↦ ?_
    refine (sifts_skipDescriptions hw (by decide)).bind (takes_wireDescriptions w _) ?_ ?_
    · intro spends _ hspends
      refine (sifts_skipDescriptions hw (by decide)).bind (takes_wireDescriptions w _) ?_ ?_
      · exact fun outputs _ houtputs ↦
          sifts_readJoinsplits hw header true ⟨hspends, houtputs, hpos⟩
      · intro outputs r s' r' h hs'
        obtain ⟨-, -, -, houtputs⟩ := takes_wireJoinsplits _ _ _ _ r r' s' h
        exact lt_of_eq_of_lt houtputs.symm hs'.2.1
    · intro spends r s' r' h hs'
      obtain ⟨outputs, r₁, -, h⟩ := read_bind_eq_ok.mp h
      obtain ⟨-, -, hspends, -⟩ := takes_wireJoinsplits _ _ _ _ r₁ r' s' h
      exact lt_of_eq_of_lt hspends.symm hs'.1
  | false =>
    simp only [Bool.false_eq_true, if_false]
    exact sifts_readJoinsplits hw header false ⟨hpos, hpos, hpos⟩

theorem takes_wireShielded (w : Nat) (header group : UInt32) :
    Takes (wireShielded w header group) fun _ _ ↦ True := by
  rw [wireShielded]
  split
  · exact takes_readI64.bind fun _ _ _ ↦ (takes_wireDescriptions w _).bind fun _ _ _ ↦
      (takes_wireDescriptions w _).bind fun _ _ _ ↦
        (takes_wireJoinsplits w header true _).mono fun _ _ _ ↦ trivial
  · exact (takes_wireJoinsplits w header false _).mono fun _ _ _ ↦ trivial

/-- A word that is read only if `c`, and what follows it. -/
theorem sifts_wordIf {N : Nat} {c : Bool} {g f : UInt32 → Read α} {Q : α → Prop}
    (hf : ∀ n, Sifts N (g n) (f n) Q) :
    Sifts N (if c then readU32 >>= g else pure 0 >>= g)
      (if c then readU32 >>= f else pure 0 >>= f) Q := by
  cases c with
  | true => exact .same_bind (takes_readU32.mono fun _ _ _ ↦ trivial) fun n _ ↦ hf n
  | false => exact .same_bind ((Takes.pure 0).mono fun _ _ _ ↦ trivial) fun n _ ↦ hf n

theorem sifts_readBody {w : Nat} (hw : w ≤ 64) (header group : UInt32) :
    Sifts (2 ^ w) (wireBody w header group) (readBody 64 header group)
      (·.shielded.Narrow w) := by
  rw [readBody, wireBody]
  refine .same_bind (takes_compactSize.mono fun _ _ _ ↦ trivial) fun n _ ↦ ?_
  refine .same_bind ((takes_readMany takes_readTxin n).mono fun _ _ _ ↦ trivial) fun vin _ ↦ ?_
  refine .same_bind (takes_compactSize.mono fun _ _ _ ↦ trivial) fun m _ ↦ ?_
  refine .same_bind ((takes_readMany takes_readTxout m).mono fun _ _ _ ↦ trivial) fun vout _ ↦ ?_
  refine .same_bind (takes_readU32.mono fun _ _ _ ↦ trivial) fun lockTime _ ↦ ?_
  refine sifts_wordIf fun expiryHeight ↦ ?_
  refine (sifts_readShielded hw header group).bind (takes_wireShielded w header group) ?_ ?_
  · intro s _ hs
    refine .of_takes ((Takes.pure _).mono ?_)
    rintro _ _ ⟨-, rfl⟩
    exact hs
  · intro s r t r' h ht
    cases h
    exact ht

theorem sifts_readTransaction {w : Nat} (hw : w ≤ 64) :
    Sifts (2 ^ w) (wireTransaction w) (readTransaction 64) (·.shielded.Narrow w) := by
  rw [readTransaction_eq, wireTransaction]
  refine .same_bind (takes_readU32.mono fun _ _ _ ↦ trivial) fun header _ ↦ ?_
  refine sifts_wordIf fun group ↦ ?_
  dsimp only
  split
  · exact .of_takes (.throw _ _)
  · exact sifts_readBody hw header group

namespace Transaction

theorem wireAt_eq_some {w : Nat} {b : Bytes} {t : Transaction} :
    wireAt w b = some t ↔ ∃ pos, wireTransaction w ⟨0, b⟩ = .ok (t, ⟨pos, []⟩) := by
  rw [wireAt]
  cases wireTransaction w ⟨0, b⟩ with
  | error e => simp
  | ok p =>
    obtain ⟨t', pos, rest⟩ := p
    cases rest with
    | nil => simp
    | cons x rest => simp

theorem toOption_parseAt_eq_some {w : Nat} {b : Bytes} {t : Transaction} :
    (parseAt w b).toOption = some t ↔ ∃ pos, readTransaction w ⟨0, b⟩ = .ok (t, ⟨pos, []⟩) := by
  rw [parseAt]
  cases readTransaction w ⟨0, b⟩ with
  | error e => simp [Except.toOption]
  | ok p =>
    obtain ⟨t', pos, rest⟩ := p
    cases rest with
    | nil => simp [Except.toOption]
    | cons x rest => simp [Except.toOption]

/-- The parser of a 64-bit machine accepts what a narrower machine reads, unless it finds a count
that the narrow machine narrows. -/
theorem toOption_parseAt_wide {w : Nat} (hw : w ≤ 64) {b : Bytes} (hb : b.length < 2 ^ w) :
    (parseAt 64 b).toOption = (wireAt w b).filter (·.shielded.Narrow w) := by
  ext t
  simp only [toOption_parseAt_eq_some, Option.filter_eq_some_iff, wireAt_eq_some,
    decide_eq_true_eq, ← exists_and_right]
  exact exists_congr fun pos ↦ sifts_readTransaction hw ⟨0, b⟩ hb t ⟨pos, []⟩

/-- Every shielded count that stands in the bytes is a `usize` of the machine. -/
def CountsFit (w : Nat) (b : Bytes) : Prop :=
  ∀ t, wireAt w b = some t → t.shielded.Narrow w

/-- Bytes that a machine of width `w` can hold parse there as on a 64-bit machine, exactly if no
shielded count in them exceeds a `usize`. -/
theorem parseAt_alike_iff {w : Nat} (hw : w ≤ 64) {b : Bytes} (hb : b.length < 2 ^ w) :
    (parseAt w b).toOption = (parseAt 64 b).toOption ↔ CountsFit w b := by
  rw [toOption_parseAt, toOption_parseAt_wide hw hb, CountsFit]
  cases wireAt w b with
  | none => simp
  | some t =>
    by_cases ht : t.shielded.Narrow w
    · simp [Option.filter, ht, narrow, ht.narrow_eq]
    · simp [Option.filter, ht]

/-- `Transaction::parse` on a machine whose pointers have `w` bits. -/
def parseOn (w : Nat) (C : Crypto) (bytes : Bytes) : Except TxError (Transaction × Arr 32) := do
  let t ← parseAt w bytes
  return (t, C.sha256d bytes)

theorem toOption_parseOn (w : Nat) (C : Crypto) (b : Bytes) :
    (parseOn w C b).toOption = (parseAt w b).toOption.map (·, C.sha256d b) := by
  rw [parseOn]
  cases parseAt w b with
  | error e => rfl
  | ok t => rfl

/-- The web build, whose pointers have 32 bits, accepts what the 64-bit builds accept and returns
the same, exactly if no shielded count in the bytes exceeds 32 bits. -/
theorem parseOn_web_iff (C : Crypto) {b : Bytes} (hb : b.length < 2 ^ 32) :
    (parseOn 32 C b).toOption = (parseOn 64 C b).toOption ↔ CountsFit 32 b := by
  rw [toOption_parseOn, toOption_parseOn, ← parseAt_alike_iff (by decide) hb]
  have hinj : Function.Injective fun t : Transaction ↦ (t, C.sha256d b) := by
    intro t t' h
    exact (Prod.ext_iff.mp h).1
  exact (Option.map_injective hinj).eq_iff

/-- The sample payment with a Sapling spend, whose 384 bytes and binding signature are zero. -/
def spendingBytes : Bytes :=
  samplePayment.bytes.take (samplePayment.bytes.length - 3) ++ 1 :: List.replicate 384 0 ++ [0, 0] ++
    List.replicate 64 0

theorem parseOn_web_iff_spending : spendingBytes.length < 2 ^ 32 ∧
    (parseOn 64 .blank spendingBytes).toOption.isSome ∧
    (parseOn 32 .blank spendingBytes).toOption = (parseOn 64 .blank spendingBytes).toOption := by
  have hlen : spendingBytes.length < 2 ^ 32 := by decide +kernel
  have hread : (parseOn 64 .blank spendingBytes).toOption.isSome := by decide +kernel
  refine ⟨hlen, hread, (parseOn_web_iff .blank hlen).mpr ?_⟩
  have hwire : wireAt 32 spendingBytes =
      some { samplePayment with shielded := ⟨1, 0, 0, 0⟩ } := by decide +kernel
  intro t ht
  rw [hwire, Option.some.injEq] at ht
  subst ht
  decide

/-- The bytes of `newV4` with its count of spends written as `2 ^ 32`. -/
def wrappedSpends : Bytes :=
  newV4Bytes.take 26 ++ writeCompactSize (2 ^ 32) ++ newV4Bytes.drop 27

theorem not_parseOn_web_wrapped :
    parseOn 32 .blank wrappedSpends = .ok (newV4, Crypto.blank.sha256d wrappedSpends) ∧
      parseOn 64 .blank wrappedSpends = .error (.truncated 35) ∧
        (parseOn 32 .blank wrappedSpends).toOption ≠
          (parseOn 64 .blank wrappedSpends).toOption := by
  have hnarrow : parseAt 32 wrappedSpends = .ok newV4 := by decide +kernel
  have hwide : parseAt 64 wrappedSpends = .error (.truncated 35) := by decide +kernel
  have h₁ : parseOn 32 .blank wrappedSpends = .ok (newV4, Crypto.blank.sha256d wrappedSpends) := by
    rw [parseOn, hnarrow]
    rfl
  have h₂ : parseOn 64 .blank wrappedSpends = .error (.truncated 35) := by
    rw [parseOn, hwide]
    rfl
  refine ⟨h₁, h₂, ?_⟩
  rw [h₁, h₂]
  exact nofun

end Transaction

end Yew.Tx
