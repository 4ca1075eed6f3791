import Yew.Sync.CoinSet

/-!
# Tokens and plain coins

What the builders can select after any run of syncs and broadcasts: whatever a YEC payment takes is no
token, and whatever a YED payment takes has the cents that the server listed for it.  Both are said
of the server's answers as they came (`CoinAnswers`), not of the map that the sync makes of them.

A token at a P2PKH address is known by the server's list alone.  A Falcon holder's token counts only if
its address is an own one, it has a token's value and the output itself pays that holder
(`falcon_token_utxos` in `core/src/sync.rs`); what the server lists besides is not believed, and makes
no coin a token.
-/

namespace Yew.Sync

open Script Tx Pq Keys Store Build Coins Addresses Yellowback Vault

/-! ## Coins in their class -/

section Classes

variable (V : CoinView) (A : CoinAnswers) (u : Utxo)

/-- A coin of an own P2PKH key. -/
def PaysKey : Prop := ∃ h ∈ V.own, p2pkhHash u.script = some h

/-- A plain coin: of an own key, not of a token's value, and not listed as a token. -/
structure Plain : Prop where
  own : PaysKey V u
  value : u.value ≠ tokenValue.toInt
  unlisted : ∀ t ∈ A.tokens, t.outpoint ≠ u.outpoint

/-- A token of an own key that the server lists, with the cents it lists. -/
structure KeyToken : Prop where
  own : PaysKey V u
  listed : ∃ t ∈ A.tokens, t.outpoint = u.outpoint ∧ t.cents = u.cents

/-- A token of an own Falcon holder that the server lists, with the cents it lists: the address is the
holder's, and so is the script. -/
structure HolderToken : Prop where
  listed : ∃ t, A.falconTokens.get? u.outpoint = some t ∧ t.cents = u.cents ∧
    t.valueZat = tokenValue.toInt ∧ ∃ id ∈ V.falcon,
      parsePqAddress V.crypto V.network t.address = .ok id ∧ u.script = (pqpkhScript id).getD []

/-- A token: it has the value of one, and is listed. -/
structure IsToken : Prop where
  value : u.value = tokenValue.toInt
  listed : KeyToken V A u ∨ HolderToken V A u

/-- A coin is what its class says. -/
structure InClass : Prop where
  plain : u.utxoClass.yecSpendable = true → Plain V A u
  token : u.utxoClass = .token → IsToken V A u

end Classes

variable {V : CoinView} {A : CoinAnswers} {s : Tables}

/-- Of the other classes nothing is said. -/
theorem InClass.other {u : Utxo} (hyec : u.utxoClass.yecSpendable = false)
    (htoken : u.utxoClass ≠ .token) : InClass V A u := by
  refine ⟨fun h ↦ ?_, fun h ↦ absurd h htoken⟩
  rw [hyec] at h
  cases h

/-- An outpoint that the sync's map leaves out is not listed. -/
theorem unlisted_of_tokens {op : OutPoint} (h : (V.tokens A s).get? op = none) :
    ∀ t ∈ A.tokens, t.outpoint ≠ op := by
  rintro t ht rfl
  have hsome : ((V.tokens A s).get? t.outpoint).isSome :=
    OrdMap.isSome_foldl_insert.mpr (.inr (OrdMap.isSome_foldl_insert.mpr (.inl ⟨t, ht, rfl⟩)))
  rw [h] at hsome
  cases hsome

/-- The cents that the map has for an outpoint without a Falcon row are listed. -/
theorem listed_of_tokens {op : OutPoint} {cents : Nat} (h : (V.tokens A s).get? op = some cents)
    (hfalcon : op ∉ (V.falconTokenUtxos A s).map Utxo.outpoint) :
    ∃ t ∈ A.tokens, t.outpoint = op ∧ t.cents = cents := by
  rcases OrdMap.get?_foldl_insert h with ⟨u, hu, hop, -⟩ | h
  · exact absurd (List.mem_map.mpr ⟨u, hu, hop⟩) hfalcon
  · rcases OrdMap.get?_foldl_insert h with hlisted | h
    · exact hlisted
    · cases h

theorem inClass_classify (u : ListedUtxo)
    (hfalcon : (⟨u.txid, u.index⟩ : OutPoint) ∉ (V.falconTokenUtxos A s).map Utxo.outpoint) :
    InClass V A
      (CoinView.row u (classify V.own (V.tokens A s) ⟨u.txid, u.index⟩ u.script u.valueZat)) := by
  unfold classify
  split
  · exact .other rfl (by simp [CoinView.row])
  · cases hhash : p2pkhHash u.script with
    | none => exact .other rfl (by simp [CoinView.row])
    | some h =>
      dsimp only
      split
      · exact .other rfl (by simp [CoinView.row])
      · rename_i hown
        have hkey : ∃ h ∈ V.own, p2pkhHash u.script = some h := ⟨h, not_not.mp hown, hhash⟩
        split
        · rename_i hvalue
          cases htoken : (V.tokens A s).get? ⟨u.txid, u.index⟩ with
          | none => exact .other rfl (by simp [CoinView.row])
          | some cents =>
            refine ⟨fun hc ↦ ?_, fun _ ↦ ⟨hvalue, .inl ⟨hkey, listed_of_tokens htoken hfalcon⟩⟩⟩
            cases hc
        · rename_i hvalue
          split
          · exact .other rfl (by simp [CoinView.row])
          · rename_i hlisted
            refine ⟨fun _ ↦ ⟨hkey, hvalue, ?_⟩, fun hc ↦ ?_⟩
            · exact unlisted_of_tokens (Option.not_isSome_iff_eq_none.mp hlisted)
            · cases hc

theorem inClass_classifyPqListed (pq : List PqKeyId) (pqTokens : OrdMap OutPoint Nat)
    (u : ListedUtxo) : InClass V A
      (CoinView.row u (classifyPqListed pq pqTokens ⟨u.txid, u.index⟩ u.script u.valueZat)) := by
  unfold classifyPqListed
  split
  · exact .other rfl (by simp [CoinView.row])
  · split
    · exact .other rfl (by simp [CoinView.row])
    · split
      · exact .other rfl (by simp [CoinView.row])
      · exact .other rfl (by simp [CoinView.row])

/-! ## The fee reserve -/

/-- A coin with or without the mark of the reserve. -/
structure SameCoin (u v : Utxo) : Prop where
  outpoint : v.outpoint = u.outpoint
  script : v.script = u.script
  value : v.value = u.value
  cents : v.cents = u.cents
  yec : v.utxoClass.yecSpendable = u.utxoClass.yecSpendable
  token : v.utxoClass = .token ↔ u.utxoClass = .token

theorem SameCoin.inClass {u v : Utxo} (h : SameCoin u v) (hu : InClass V A u) : InClass V A v := by
  refine ⟨fun hyec ↦ ?_, fun htoken ↦ ?_⟩
  · obtain ⟨hown, hvalue, hlisted⟩ := hu.plain (h.yec ▸ hyec)
    exact ⟨by rw [PaysKey, h.script]; exact hown, by rw [h.value]; exact hvalue,
      by rw [h.outpoint]; exact hlisted⟩
  · obtain ⟨hvalue, hkey | hholder⟩ := hu.token (h.token.mp htoken)
    · refine ⟨h.value.trans hvalue, .inl ⟨?_, ?_⟩⟩
      · rw [PaysKey, h.script]
        exact hkey.own
      · rw [h.outpoint, h.cents]
        exact hkey.listed
    · refine ⟨h.value.trans hvalue, .inr ⟨?_⟩⟩
      rw [h.outpoint, h.cents, h.script]
      exact hholder.listed

theorem sameCoin_unreserve (u : Utxo) : SameCoin u (unreserve u) := by
  rcases unreserve_cases u with ⟨hclass, heq⟩ | ⟨-, heq⟩
  · rw [heq]
    exact ⟨rfl, rfl, rfl, rfl, by rw [hclass]; rfl, by simp [hclass]⟩
  · rw [heq]
    exact ⟨rfl, rfl, rfl, rfl, rfl, Iff.rfl⟩

/-- The reserve marks plain coins only. -/
theorem sameCoin_applyFeeReserve {us : List Utxo} {v : Utxo} (h : v ∈ applyFeeReserve us) :
    ∃ u ∈ us, SameCoin u v := by
  unfold applyFeeReserve at h
  dsimp only at h
  obtain ⟨i, hi, hv⟩ := List.mem_mapIdx.mp h
  have hget := List.getElem?_eq_getElem hi
  obtain ⟨u, hu, hunreserve⟩ := List.mem_map.mp (List.getElem_mem hi)
  rw [← hunreserve] at hget hv
  refine ⟨u, hu, ?_⟩
  have hsame := sameCoin_unreserve u
  subst hv
  split
  · rename_i hmarked
    obtain ⟨q, hq, hindex⟩ := List.mem_map.mp hmarked
    have hq := (List.mem_insertionSort _).mp ((reserveFront_subset_front _ _ _ _).subset hq)
    obtain ⟨hzip, hyec⟩ := List.mem_filter.mp hq
    have hq₁ : some (unreserve u) = some q.1 := by
      rw [← hget, ← hindex]
      exact List.mem_zipIdx_iff_getElem?.mp hzip
    rw [← Option.some.inj hq₁, decide_eq_true_eq] at hyec
    refine ⟨hsame.outpoint, hsame.script, hsame.value, hsame.cents, ?_, ?_⟩
    · rw [← hsame.yec, hyec]
      rfl
    · rw [← hsame.token, hyec]
      simp
  · exact hsame

theorem map_outpoint_applyFeeReserve (us : List Utxo) :
    (applyFeeReserve us).map Utxo.outpoint = us.map Utxo.outpoint := by
  unfold applyFeeReserve
  dsimp only
  refine List.ext_getElem (by simp) fun i hi hi' ↦ ?_
  rw [List.getElem_map, List.getElem_mapIdx, List.getElem_map, List.getElem_map]
  split
  · exact (sameCoin_unreserve _).outpoint
  · exact (sameCoin_unreserve _).outpoint

/-! ## Every coin -/

theorem script_falconScript {op : OutPoint} {want script : Bytes}
    (h : CoinView.falconScript A s op want = some script) : script = want := by
  unfold CoinView.falconScript at h
  split at h
  · rename_i u hu
    split at h
    · cases h
    · obtain ⟨-, hwant⟩ := Option.filter_eq_some_iff.mp hu
      rw [← Option.some.inj h]
      simp only [Bool.and_eq_true, decide_eq_true_eq] at hwant
      exact hwant.2
  · split at h
    · split at h
      · exact (Option.some.inj h).symm
      · cases h
    · cases h

theorem inClass_falconTokenUtxos {u : Utxo} (h : u ∈ V.falconTokenUtxos A s) : InClass V A u := by
  obtain ⟨e, he, hrow⟩ := List.mem_filterMap.mp ((List.mem_insertionSort _).mp h)
  unfold CoinView.falconRow at hrow
  split at hrow
  · cases hrow
  · rename_i id hid
    split at hrow
    · cases hrow
    · rename_i hholder
      rw [not_or, not_not, not_not] at hholder
      obtain ⟨script, hscript, rfl⟩ := Option.map_eq_some_iff.mp hrow
      refine ⟨fun hyec ↦ ?_, fun _ ↦ ⟨rfl, .inr ⟨e.2, OrdMap.mem_entries.mp he, rfl, hholder.2, id,
        hholder.1, hid, script_falconScript hscript⟩⟩⟩
      cases hyec

/-- Of coins that are all apart, no listed output is a Falcon row. -/
theorem inClass_addressRows (hnodup : ((V.addressRows A s).map Utxo.outpoint).Nodup) {u : Utxo}
    (h : u ∈ V.addressRows A s) : InClass V A u := by
  rw [CoinView.addressRows, List.map_append, map_outpoint_applyFeeReserve, List.map_append] at hnodup
  have hapart := (List.nodup_append.mp (List.nodup_append.mp hnodup).1).2.2
  rcases List.mem_append.mp h with h | h
  · obtain ⟨v, hv, hsame⟩ := sameCoin_applyFeeReserve h
    refine hsame.inClass ?_
    rcases List.mem_append.mp hv with hv | hv
    · obtain ⟨l, hl, rfl⟩ := List.mem_map.mp hv
      refine inClass_classify l fun hfalcon ↦ ?_
      exact hapart _ (List.mem_map.mpr ⟨_, hv, rfl⟩) _ hfalcon rfl
    · exact inClass_falconTokenUtxos hv
  · obtain ⟨l, -, rfl⟩ := List.mem_map.mp h
    exact inClass_classifyPqListed _ _ l

theorem inClass_pendingRows {present : List OutPoint} {u : Utxo} (h : u ∈ V.pendingRows s present) :
    InClass V A u := by
  obtain ⟨e, -, he⟩ := List.mem_flatMap.mp h
  split at he
  · cases he
  · obtain ⟨a, -, ha⟩ := List.mem_filterMap.mp he
    dsimp only at ha
    split at ha
    · cases ha
    · obtain ⟨o, -, rfl⟩ := Option.map_eq_some_iff.mp ha
      exact .other rfl (by simp)

theorem inClass_vaultRow {present : List OutPoint} {v : VaultCoin} {u : Utxo}
    (h : V.vaultRow present v = .ok (some u)) : InClass V A u := by
  unfold CoinView.vaultRow at h
  split at h
  · cases h
  · split at h
    · cases h
    · split at h
      · cases h
      · rename_i vt _ _
        cases hscript : vaultScriptAt vt v.owner v.ownerHeight v.appHeight with
        | error e => simp [hscript, Except.map] at h
        | ok script =>
          rw [hscript] at h
          cases h
          exact .other rfl (by simp)

theorem inClass_carrierRow {present : List OutPoint} {m : MintRow} {u : Utxo}
    (h : V.carrierRow present m = .ok (some u)) : InClass V A u := by
  unfold CoinView.carrierRow at h
  split at h
  · cases h
  · split at h
    · cases h
    · split at h
      · cases h
      · cases h
        exact .other rfl (by simp)

theorem mem_mapM_ok {α β ε : Type} {f : α → Except ε β} {as : List α} {bs : List β}
    (h : as.mapM f = .ok bs) {b : β} (hb : b ∈ bs) : ∃ a ∈ as, f a = .ok b := by
  induction as generalizing bs with
  | nil =>
    obtain rfl : [] = bs := by simpa [pure, Except.pure] using h
    cases hb
  | cons a as ih =>
    rw [List.mapM_cons] at h
    cases ha : f a with
    | error e => simp [ha, bind, Except.bind] at h
    | ok c =>
      cases has : as.mapM f with
      | error e => simp [ha, has, bind, Except.bind] at h
      | ok cs =>
        obtain rfl : c :: cs = bs := by simpa [ha, has, bind, Except.bind, pure, Except.pure] using h
        rcases List.mem_cons.mp hb with rfl | hb
        · exact ⟨a, List.mem_cons_self, ha⟩
        · obtain ⟨a', ha', hf⟩ := ih has hb
          exact ⟨a', List.mem_cons_of_mem _ ha', hf⟩

/-- Every coin of a sync is what its class says. -/
theorem inClass_coinSet {utxos : List Utxo} (h : V.coinSet A s = .ok utxos)
    (hnodup : (utxos.map Utxo.outpoint).Nodup) {u : Utxo} (hu : u ∈ utxos) : InClass V A u := by
  unfold CoinView.coinSet at h
  dsimp only at h
  generalize hpresent : (V.addressRows A s ++ V.pendingRows s ((V.addressRows A s).map Utxo.outpoint)) =
    rows at h
  cases hvaults : V.vaults.mapM (V.vaultRow (rows.map Utxo.outpoint)) with
  | error e => simp [hvaults, bind, Except.bind] at h
  | ok vaults =>
    cases hcarriers : (s.mints.entries.map Prod.snd).mapM (V.carrierRow (rows.map Utxo.outpoint)) with
    | error e => simp [hvaults, hcarriers, bind, Except.bind] at h
    | ok carriers =>
      obtain rfl : rows ++ vaults.filterMap id ++ carriers.filterMap id = utxos := by
        simpa [hvaults, hcarriers, bind, Except.bind, pure, Except.pure] using h
      rcases List.mem_append.mp hu with hu | hu
      · rcases List.mem_append.mp hu with hu | hu
        · rw [← hpresent] at hu
          rcases List.mem_append.mp hu with hu | hu
          · refine inClass_addressRows ?_ hu
            rw [← hpresent, List.map_append, List.map_append, List.map_append] at hnodup
            exact (List.nodup_append.mp (List.nodup_append.mp (List.nodup_append.mp hnodup).1).1).1
          · exact inClass_pendingRows hu
        · obtain ⟨v, -, hv⟩ := mem_mapM_ok hvaults (by simpa using hu)
          exact inClass_vaultRow hv
      · obtain ⟨m, -, hm⟩ := mem_mapM_ok hcarriers (by simpa using hu)
        exact inClass_carrierRow hm

/-! ## Runs -/

/-- The store, and what the last sync that succeeded knew and was told. -/
structure CoinWorld where
  store : Tables
  view : CoinView
  answers : CoinAnswers

/-- A broadcast with a store that works, or a sync. -/
inductive CoinEvent where
  | broadcast (b : Broadcast) (answer : Except NetError String)
  | sync (tip : Nat) (seen : List SeenTx) (history : OrdMap (Arr 32) HistoryRow)
      (reports : List SpendReport) (V : CoinView) (A : CoinAnswers)

/-- One call.  A sync that fails on its coins leaves those that are there. -/
def coinStep (w : CoinWorld) : CoinEvent → Unit × CoinWorld
  | .broadcast b answer => ((), { w with store := (sendRecorded b noFaults answer w.store).store })
  | .sync tip seen history reports V A =>
    let x := noteSpends reports (syncMints tip seen history w.store)
    if x.2 then ((), { w with store := x.1 })
    else match V.coinSet A x.1 with
      | .error _ => ((), { w with store := x.1 })
      | .ok utxos =>
        match replaceUtxos utxos x.1 with
        | none => ((), { w with store := x.1 })
        | some t => ((), ⟨dropGone t, V, A⟩)

/-- The coins that a builder writes are pending tokens. -/
def WritesPending (w : CoinWorld) : CoinEvent → Prop
  | .broadcast b _ => b.step.Reads w.store ∧ ∀ n u, .utxo n u ∈ b.rows → u.utxoClass = .pendingToken
  | .sync _ _ _ _ _ _ => True

/-- Every coin of the store is what its class says. -/
def CoinWorld.Sound (w : CoinWorld) : Prop :=
  ∀ op u, w.store.utxos.get? op = some u → InClass w.view w.answers u

theorem utxos_recordTransaction (own : Own) (tx : Transaction) (txid : Arr 32) (height : Nat)
    (s : Tables) : (recordTransaction own tx txid height s).utxos = s.utxos := by
  have houtputs (s : Tables) : (putOutputs own tx txid s).utxos = s.utxos := by
    unfold putOutputs
    induction own.outputs tx generalizing s with
    | nil => rfl
    | cons o os ih => exact ih _
  have htokens (s : Tables) : (putSpentTokens tx txid s).utxos = s.utxos := by
    unfold putSpentTokens
    induction tx.vin generalizing s with
    | nil => rfl
    | cons i is ih =>
      rw [List.foldl_cons]
      refine (ih _).trans ?_
      split <;> rfl
  have hsettle (s : Tables) : (settlePending txid height s).utxos = s.utxos := by
    unfold settlePending
    split <;> rfl
  exact (hsettle _).trans ((htokens _).trans (houtputs s))

theorem utxos_syncMints (tip : Nat) (seen : List SeenTx) (history : OrdMap (Arr 32) HistoryRow)
    (s : Tables) : (syncMints tip seen history s).utxos = s.utxos := by
  have hfold {α : Type} {f : Tables → α → Tables} (hf : ∀ s a, (f s a).utxos = s.utxos)
      (as : List α) (s : Tables) : (as.foldl f s).utxos = s.utxos := by
    induction as generalizing s with
    | nil => rfl
    | cons a as ih => exact (ih _).trans (hf s a)
  have hadvance (ms : List MintRow) (x : Tables × List (Int × MintState)) :
      (ms.foldl (advanceMint tip) x).1.utxos = x.1.utxos := by
    induction ms generalizing x with
    | nil => rfl
    | cons m ms ih =>
      refine (ih _).trans ?_
      unfold advanceMint
      split
      · rw [Tables.setMintState, Tables.updateMint]
        split <;> rfl
      · rfl
  have hexpire (s : Tables) : (expirePending tip s).utxos = s.utxos := by
    refine hfold (fun s e ↦ ?_) _ s
    split
    · unfold expireTx
      dsimp only
      split <;> rfl
    · rfl
  refine (hadvance _ _).trans ((hexpire _).trans ?_)
  exact hfold (fun s t ↦ utxos_recordTransaction _ _ _ _ s) seen s

theorem utxos_noteSpends (reports : List SpendReport) (s : Tables) :
    (noteSpends reports s).1.utxos = s.utxos := by
  have hone (s : Tables) (v : SpendReport) : (notePendingSpend s v).1.utxos = s.utxos := by
    unfold notePendingSpend
    split
    · split
      · rfl
      · split <;> rfl
    · split
      · rfl
      · split <;> rfl
  suffices hfold : ∀ x : Tables × Bool, (reports.foldl noteReport x).1.utxos = x.1.utxos from
    hfold (s, false)
  induction reports with
  | nil => exact fun x ↦ rfl
  | cons v vs ih =>
    intro x
    refine (ih _).trans ?_
    unfold noteReport
    split
    · rfl
    · exact hone x.1 v

/-- A coin behind the writes of a broadcast was there, or is one that the builder writes. -/
theorem utxos_writes {b : Broadcast} {s : Tables} {op : OutPoint} {u : Utxo}
    (h : (runAll b.writes s).utxos.get? op = some u) :
    s.utxos.get? op = some u ∨ ∃ n v, .utxo n v ∈ b.rows ∧ u = { v with outpoint := ⟨b.txid, n⟩ } := by
  have hrows {ws : List RowWrite} (hws : ∀ w ∈ ws, w ∈ b.rows) {s : Tables}
      (h : (ws.foldl (fun s w ↦ w.apply b.txid s) s).utxos.get? op = some u) :
      s.utxos.get? op = some u ∨
        ∃ n v, .utxo n v ∈ b.rows ∧ u = { v with outpoint := ⟨b.txid, n⟩ } := by
    induction ws generalizing s with
    | nil => exact .inl h
    | cons w ws ih =>
      rw [List.foldl_cons] at h
      rcases ih (fun w hw ↦ hws w (List.mem_cons_of_mem _ hw)) h with hget | hnew
      · cases w with
        | utxo n v =>
          rw [RowWrite.apply, Tables.upsertUtxo, OrdMap.get?_insert] at hget
          split at hget
          · exact .inr ⟨n, v, hws _ List.mem_cons_self, (Option.some.inj hget).symm⟩
          · exact .inl hget
        | history row => exact .inl hget
        | ownOutput n value hash160 => exact .inl hget
        | spentToken op cents => exact .inl hget
        | intent n i => exact .inl hget
      · exact .inr hnew
  rw [Broadcast.writes, runAll_append] at h
  obtain ⟨intents, mints, mintSeq, claimBounds, heq⟩ := b.step.runAll_writes (runAll b.base s)
  rw [heq] at h
  rw [Broadcast.base, runAll_append] at h
  have hlocks (ops : List OutPoint) (s : Tables) :
      (ops.foldl (fun s op ↦ s.lock op b.reason b.expiryHeight.toNat) s).utxos = s.utxos := by
    induction ops generalizing s with
    | nil => rfl
    | cons op ops ih => exact ih _
  have hrecord : (runAll b.recordBroadcast s).utxos = s.utxos := by
    rw [Broadcast.recordBroadcast, runAll_append]
    simp only [runAll, List.foldl_map]
    exact hlocks b.inputs s
  simp only [runAll, List.foldl_map] at h
  rw [← hrecord]
  exact hrows (fun _ hw ↦ hw) h

theorem CoinWorld.Sound.broadcast {w : CoinWorld} (h : w.Sound) {b : Broadcast}
    {answer : Except NetError String} (hguard : WritesPending w (.broadcast b answer)) :
    (coinStep w (.broadcast b answer)).2.Sound := by
  intro op u hu
  rcases sendRecorded_cases answer hguard.1 with ⟨-, -, -, -, hutxos⟩ | ⟨-, hstore⟩
  · have hget : (w.store.forgetTx b.txid).utxos.get? op = some u := by
      rw [← hutxos]
      exact hu
    rw [Tables.forgetTx, OrdMap.get?_filter] at hget
    split at hget
    · exact h op u hget
    · cases hget
  · have hget : (runAll b.writes w.store).utxos.get? op = some u := by
      rw [← hstore]
      exact hu
    rcases utxos_writes hget with hold | ⟨n, v, hv, rfl⟩
    · exact h op u hold
    · have hclass := hguard.2 n v hv
      exact .other (by simp [hclass, UtxoClass.yecSpendable]) (by simp [hclass])

theorem CoinWorld.Sound.sync {w : CoinWorld} (h : w.Sound) (tip : Nat) (seen : List SeenTx)
    (history : OrdMap (Arr 32) HistoryRow) (reports : List SpendReport) (V : CoinView)
    (A : CoinAnswers) : (coinStep w (.sync tip seen history reports V A)).2.Sound := by
  have hold : CoinWorld.Sound
      { w with store := (noteSpends reports (syncMints tip seen history w.store)).1 } := by
    intro op u hu
    rw [utxos_noteSpends, utxos_syncMints] at hu
    exact h op u hu
  unfold coinStep
  dsimp only
  generalize noteSpends reports (syncMints tip seen history w.store) = x at hold
  split
  · exact hold
  · cases hcoins : V.coinSet A x.1 with
    | error e => exact hold
    | ok utxos =>
      dsimp only
      cases hreplace : replaceUtxos utxos x.1 with
      | none => exact hold
      | some t =>
        obtain ⟨hnodup, rfl⟩ := replaceUtxos_eq_some hreplace
        intro op u hu
        rcases OrdMap.get?_foldl_insert hu with ⟨v, hv, -, rfl⟩ | hnone
        · exact inClass_coinSet hcoins hnodup hv
        · cases hnone

/-- **Tokens and plain coins.**  Behind every run of syncs and broadcasts, whatever `select_yec` takes
is a plain coin, and so is whatever the fee reserve marks; whatever a transfer ranks is a token with the
cents that the server listed for it. -/
theorem tokens_apart {w₀ w : CoinWorld} {h : List (CoinEvent × Unit)} (hw₀ : w₀.store.utxos = .empty)
    (run : Trace coinStep WritesPending w₀ h w) :
    (∀ needed useReserve taken,
        selectYec (spendableUtxos w.store) needed useReserve = .ok taken →
        ∀ u ∈ taken, Plain w.view w.answers u) ∧
      (∀ op u, w.store.utxos.get? op = some u → u.utxoClass = .feeReserve →
        Plain w.view w.answers u) ∧
      ∀ u ∈ rankedTokens (spendableUtxos w.store), IsToken w.view w.answers u := by
  have hsound : w.Sound := by
    refine @Trace.invariant _ _ _ _ _ _ _ _ (fun _ ↦ CoinWorld.Sound) run ?_ ?_
    · intro op u hu
      rw [hw₀] at hu
      cases hu
    · intro _ w e hsound hguard
      cases e with
      | broadcast b answer => exact hsound.broadcast hguard
      | sync tip seen history reports V A => exact hsound.sync tip seen history reports V A
  have hclass {u : Utxo} (hu : u ∈ spendableUtxos w.store) : InClass w.view w.answers u := by
    obtain ⟨e, he, rfl⟩ := List.mem_map.mp (List.mem_of_mem_filter hu)
    exact hsound e.1 e.2 (OrdMap.mem_entries.mp he)
  refine ⟨fun needed useReserve taken hselect u hu ↦ ?_, fun op u hu hreserve ↦ ?_, fun u hu ↦ ?_⟩
  · have hpool := (selectYec_eq_ok hselect).1.subset hu
    obtain ⟨hmem, heligible⟩ := List.mem_filter.mp ((perm_pool _ _).mem_iff.mp hpool)
    refine (hclass hmem).plain ?_
    unfold UtxoClass.yecSpendable
    simp only [Bool.or_eq_true, Bool.and_eq_true] at heligible ⊢
    exact heligible.imp_right And.right
  · refine (hsound op u hu).plain ?_
    rw [hreserve]
    rfl
  · obtain ⟨hmem, htoken⟩ := mem_rankedTokens.mp hu
    exact (hclass hmem).token htoken

/-! ### Tokens beside a plain coin -/

/-- The wallet's one key hash. -/
def soleHash : Arr 20 := List.Vector.replicate 20 5

/-- Its one Falcon holder, and the address of that. -/
def soleHolder : PqKeyId := ⟨2, List.Vector.replicate 32 6⟩

@[inherit_doc soleHolder]
def soleAddress : String := (encodePqYellowback Crypto.blank .regtest soleHolder).getD ""

/-- The wallet, with nothing but its keys. -/
def soleView : CoinView :=
  ⟨Crypto.blank, .regtest, [soleHash], [soleHolder], [soleHolder], fun _ ↦ none, [], none⟩

/-- The transaction of the holder's token. -/
def holderTxid : Arr 32 := List.Vector.replicate 32 8

/-- Two outputs of the key, of which the first is listed as a token, and a token of the holder. -/
def soleAnswers : CoinAnswers where
  tokens := [⟨⟨sampleTxid, 0⟩, 500, 10000, 1, "", ""⟩]
  ownerTokens := []
  falconTokens := OrdMap.empty.insert ⟨holderTxid, 0⟩ ⟨⟨holderTxid, 0⟩, 300, 10000, 1, soleAddress, ""⟩
  utxos := [⟨"", sampleTxid, 0, p2pkhScript soleHash, 10000, 1⟩,
    ⟨"", sampleTxid, 1, p2pkhScript soleHash, 50000, 1⟩]
  pqUtxos := []
  transaction _ := some { Transaction.newV4 with
    vout := [⟨10000, (pqpkhScript soleHolder).getD []⟩] }

/-- The wallet behind one sync. -/
def soleWorld : CoinWorld :=
  (Trace.run coinStep ⟨Tables.empty, soleView, soleAnswers⟩
    [.sync 10 [] .empty [] soleView soleAnswers]).2

theorem tokens_apart_sample :
    (rankedTokens (spendableUtxos soleWorld.store)).map Utxo.cents = [300, 500] ∧
      (∀ u ∈ rankedTokens (spendableUtxos soleWorld.store),
        IsToken soleWorld.view soleWorld.answers u) ∧
      ∃ taken, selectYec (spendableUtxos soleWorld.store) 20000 true = .ok taken ∧
        ∀ u ∈ taken, Plain soleWorld.view soleWorld.answers u := by
  have hguard : Trace.Guarded coinStep WritesPending ⟨Tables.empty, soleView, soleAnswers⟩
      [.sync 10 [] .empty [] soleView soleAnswers] := ⟨trivial, trivial⟩
  obtain ⟨hplain, -, htokens⟩ := tokens_apart rfl (Trace.trace_run hguard)
  refine ⟨by decide +kernel, htokens, ?_⟩
  have hok : (selectYec (spendableUtxos soleWorld.store) 20000 true).isOk = true := by decide +kernel
  cases htaken : selectYec (spendableUtxos soleWorld.store) 20000 true with
  | error e => simp [htaken, Except.isOk, Except.toBool] at hok
  | ok taken => exact ⟨taken, rfl, hplain 20000 true taken htaken⟩

end Yew.Sync
