import Yew.Daemon.Backed
import Yew.Daemon.YedSend

/-!
# Coins that hold YED

A coin of the wallet that the node's index lists as a token is in the reserved set whenever the
index can be read, so none of the selectors of plain YEC takes it.  When the index cannot be read
the reserved set is short of the tokens, and the selectors go on.

The set is `yed_reserved` of `yewd/wallet/src/build.rs`, with the node's `yed_listtokens` under it.
What a failed reading does is a branch of the definition and not an assumption about the node.
-/

namespace Yew.Daemon

open Script Tx Pq Proto Proc Yellowback Build

variable {A : Answers} {w : Wallet}

/-! ## Reading the token state -/

/-- The outpoint holds YED cents according to the node's token state. -/
def Answers.Carries (A : Answers) (op : OutPoint) : Prop :=
  ∃ t ∈ A.tokens, 0 < t.cents ∧ t.at = (txidHex op.txid, op.n)

/-- The index names the script of an output it lists. -/
def Answers.Names (A : Answers) (w : Wallet) : Prop :=
  ∀ t ∈ A.tokens, ∀ c ∈ w.coins, t.at = c.at → t.script = c.script

/-- Every `yed_listtokens` call of a reading is answered. -/
def Wallet.Answered (A : Answers) (w : Wallet) (reading : Nat) : Prop :=
  ∀ i < (chunks 100 w.tokenScripts).length, A.tokensFault reading i = none

/-- Every element is in a chunk. -/
theorem exists_mem_chunks {α : Type} {n : Nat} (hn : 0 < n) {l : List α} {x : α} (hx : x ∈ l) :
    ∃ c ∈ chunks n l, x ∈ c := by
  obtain ⟨i, hi, rfl⟩ := List.mem_iff_getElem.mp hx
  have hdiv : n * (i / n) + i % n = i := Nat.div_add_mod i n
  have hmod : i % n < n := Nat.mod_lt i hn
  refine ⟨(l.drop (n * (i / n))).take n, List.mem_map.mpr ⟨i / n, ?_, rfl⟩, ?_⟩
  · refine List.mem_range.mpr (Nat.lt_of_lt_of_le (Nat.lt_succ_self _) ?_)
    rw [Nat.le_div_iff_mul_le hn, Nat.succ_mul, Nat.mul_comm]
    omega
  · refine List.mem_iff_getElem.mpr ⟨i % n, ?_, ?_⟩
    · simp only [List.length_take, List.length_drop]
      omega
    · simp only [List.getElem_take, List.getElem_drop, hdiv]

theorem listTokens_eq_ok {reading : Nat} {cs : List (List Bytes × Nat)} {ts : List YedToken}
    (h : listTokens A reading cs = .ok ts) :
    (∀ c ∈ cs, A.tokensFault reading c.2 = none) ∧
      ∀ t ∈ A.tokens, (∃ c ∈ cs, t.script ∈ c.1) → t ∈ ts := by
  induction cs generalizing ts with
  | nil => exact ⟨nofun, fun _ _ ⟨_, hc, _⟩ ↦ nomatch hc⟩
  | cons c cs ih =>
    rw [listTokens] at h
    split at h
    · cases h
    · rename_i hnone
      obtain ⟨ts', hts', h⟩ := Result.bind_eq_ok.mp h
      cases h
      obtain ⟨h₁, h₂⟩ := ih hts'
      refine ⟨List.forall_mem_cons.mpr ⟨hnone, h₁⟩, fun t ht ⟨c', hc', htc⟩ ↦ ?_⟩
      rcases List.mem_cons.mp hc' with rfl | hc'
      · exact List.mem_append_left _ (List.mem_filter.mpr ⟨ht, by simpa using htc⟩)
      · exact List.mem_append_right _ (h₂ t ht ⟨c', hc', htc⟩)

theorem listTokens_isOk {reading : Nat} {cs : List (List Bytes × Nat)}
    (h : ∀ c ∈ cs, A.tokensFault reading c.2 = none) : ∃ ts, listTokens A reading cs = .ok ts := by
  induction cs with
  | nil => exact ⟨[], rfl⟩
  | cons c cs ih =>
    obtain ⟨hc, hcs⟩ := List.forall_mem_cons.mp h
    obtain ⟨ts, hts⟩ := ih hcs
    exact ⟨A.tokens.filter (fun t ↦ t.script ∈ c.1) ++ ts, by rw [listTokens, hc, hts]; rfl⟩

/-- The token state is read when every call of the reading is answered. -/
theorem Wallet.tokens_isOk {reading : Nat} :
    (∃ ts, w.tokens A reading = .ok ts) ↔ w.Answered A reading := by
  constructor
  · rintro ⟨ts, hts⟩ i hi
    have hmem : ((chunks 100 w.tokenScripts)[i], i) ∈ (chunks 100 w.tokenScripts).zipIdx :=
      List.mem_zipIdx_iff_getElem?.mpr (List.getElem?_eq_getElem hi)
    exact (listTokens_eq_ok hts).1 _ hmem
  · refine fun h ↦ listTokens_isOk fun c hc ↦ h c.2 ?_
    have := List.mem_zipIdx_iff_getElem?.mp hc
    exact (List.getElem?_eq_some_iff.mp this).1

/-- A coin that is a token is reserved, when the token state can be read. -/
theorem Wallet.Backed.mem_yedReserved (hw : w.Backed) (hA : A.Names w) {reading : Nat}
    (h : w.Answered A reading) {c : Coin} (hc : c ∈ w.coins) {t : YedToken} (ht : t ∈ A.tokens)
    (hat : t.at = c.at) : c.at ∈ w.yedReserved A reading := by
  obtain ⟨ts, hts⟩ := w.tokens_isOk.mpr h
  have hscript : c.script ∈ w.tokenScripts :=
    List.mem_filter.mpr ⟨hw.book.mem_holderScripts (hw.owned c hc),
      by simpa using ⟨c, hc, rfl⟩⟩
  obtain ⟨chunk, hchunk, hmem⟩ := exists_mem_chunks (n := 100) (by decide) hscript
  obtain ⟨i, hi⟩ := List.getElem?_of_mem hchunk
  have htoken : t ∈ ts := (listTokens_eq_ok hts).2 t ht
    ⟨(chunk, i), List.mem_zipIdx_iff_getElem?.mpr hi, by rw [hA t ht c hc hat]; exact hmem⟩
  unfold Wallet.yedReserved
  rw [hts, ← hat]
  exact List.mem_append_left _ (List.mem_map_of_mem htoken)

theorem readOutpoint_txidHex (x : Arr 32) (n : UInt32) :
    readOutpoint (txidHex x, n) = .ok ⟨x, n⟩ := by
  simp [readOutpoint]

theorem Wallet.Backed.at_eq (hw : w.Backed) {c : Coin} (hc : c ∈ w.coins) {op : OutPoint}
    (hop : readOutpoint c.at = .ok op) : c.at = (txidHex op.txid, op.n) := by
  obtain ⟨x, hx⟩ := hw.spelled c hc
  have hat : c.at = (txidHex x, c.vout) := by rw [Coin.at, hx]
  rw [hat, readOutpoint_txidHex] at hop
  cases hop
  exact hat

/-- A coin outside the reserved set holds no cents, when the token state can be read. -/
theorem Wallet.Backed.not_carries (hw : w.Backed) (hA : A.Names w) {reading : Nat}
    (h : w.Answered A reading) {c : Coin} (hc : c ∈ w.coins)
    (hfree : c.at ∉ w.yedReserved A reading) {op : OutPoint} (hop : readOutpoint c.at = .ok op) :
    ¬ A.Carries op := by
  rintro ⟨t, ht, -, hat⟩
  exact hfree (hw.mem_yedReserved hA h hc ht (hat.trans (hw.at_eq hc hop).symm))

/-! ## What the selectors choose from -/

/-- A coin of the wallet that is not reserved. -/
def Free (A : Answers) (w : Wallet) (reading : Nat) (op : OutPoint) : Prop :=
  ∃ c ∈ w.coins, readOutpoint c.at = .ok op ∧ c.at ∉ w.yedReserved A reading

theorem mem_availableCoins {p : Purse} {e : Coin × Int} (h : e ∈ p.availableCoins) :
    e.1 ∈ p.wallet.coins := by
  obtain ⟨c, hc, hsome⟩ := List.mem_filterMap.mp h
  dsimp only at hsome
  split at hsome
  · cases hsome
  split at hsome
  · cases hsome
  · cases hsome
    exact hc

theorem mem_candidates {p : Purse} {reading : Nat} {c : Coin} (h : c ∈ p.candidates A reading) :
    c ∈ p.wallet.coins ∧ c.at ∉ p.wallet.yedReserved A reading := by
  obtain ⟨e, he, rfl⟩ := List.mem_map.mp h
  obtain ⟨hmem, hkeep⟩ := List.mem_filter.mp he
  refine ⟨mem_availableCoins hmem, fun hres ↦ ?_⟩
  simp [hres] at hkeep

theorem mem_pqCandidates {p : Purse} {reading : Nat} {c : Coin}
    (h : c ∈ p.pqCandidates A reading) :
    c ∈ p.wallet.coins ∧ c.at ∉ p.wallet.yedReserved A reading := by
  obtain ⟨e, he, rfl⟩ := List.mem_map.mp h
  obtain ⟨hmem, hkeep⟩ := List.mem_filter.mp he
  refine ⟨mem_availableCoins hmem, fun hres ↦ ?_⟩
  simp [hres] at hkeep

theorem mem_confirmedCoins {used : List OutPoint} {cs : List Coin} {chosen : List Chosen}
    (h : confirmedCoins A used cs = .ok chosen) {ch : Chosen} (hch : ch ∈ chosen) :
    ∃ c ∈ cs, readOutpoint c.at = .ok ch.outpoint ∧ ch.outpoint ∉ used := by
  induction cs generalizing chosen with
  | nil =>
    cases h
    cases hch
  | cons c cs ih =>
    rw [confirmedCoins] at h
    obtain ⟨op, hop, h⟩ := Result.bind_eq_ok.mp h
    have hrest {rest : List Chosen} (hr : confirmedCoins A used cs = .ok rest)
        (hmem : ch ∈ rest) : ∃ c' ∈ c :: cs, readOutpoint c'.at = .ok ch.outpoint ∧
          ch.outpoint ∉ used := by
      obtain ⟨c', hc', hread⟩ := ih hr hmem
      exact ⟨c', List.mem_cons_of_mem c hc', hread⟩
    split at h
    · exact hrest h hch
    · rename_i hused
      obtain ⟨n, -, h⟩ := Result.bind_eq_ok.mp h
      obtain ⟨rest, hr, h⟩ := Result.bind_eq_ok.mp h
      cases h
      split at hch
      · rcases List.mem_cons.mp hch with rfl | hch
        · exact ⟨c, List.mem_cons_self, hop, hused⟩
        · exact hrest hr hch
      · exact hrest hr hch

theorem mem_readCoins {α : Type} {cs : List (Coin × α)} {chosen : List (Chosen × α)}
    (h : readCoins cs = .ok chosen) {ch : Chosen × α} (hch : ch ∈ chosen) :
    ∃ c, (c, ch.2) ∈ cs ∧ readOutpoint c.at = .ok ch.1.outpoint ∧ ch.1.script = c.script := by
  induction cs generalizing chosen with
  | nil =>
    cases h
    cases hch
  | cons c cs ih =>
    rw [readCoins] at h
    obtain ⟨op, hop, h⟩ := Result.bind_eq_ok.mp h
    obtain ⟨rest, hr, h⟩ := Result.bind_eq_ok.mp h
    cases h
    rcases List.mem_cons.mp hch with rfl | hch
    · exact ⟨c.1, List.mem_cons_self, hop, rfl⟩
    · obtain ⟨c', hc', hread⟩ := ih hr hch
      exact ⟨c', List.mem_cons_of_mem c hc', hread⟩

theorem free_eligible {p : Purse} {reading : Nat} {used : List OutPoint} {chosen : List Chosen}
    (h : p.eligible A reading used = .ok chosen) {ch : Chosen} (hch : ch ∈ chosen) :
    Free A p.wallet reading ch.outpoint := by
  obtain ⟨cs, hcs, h⟩ := Result.bind_eq_ok.mp h
  cases h
  obtain ⟨c, hc, hread, -⟩ := mem_confirmedCoins hcs ((List.mem_insertionSort _).mp hch)
  obtain ⟨hmem, hfree⟩ := mem_candidates hc
  exact ⟨c, hmem, hread, hfree⟩

theorem mem_spendableYec {p : Purse} {minDepth : Int} {withPq : Bool} {chosen : List Chosen}
    (h : p.spendableYec A minDepth withPq = .ok chosen) {ch : Chosen} (hch : ch ∈ chosen) :
    ∃ c ∈ p.wallet.coins, readOutpoint c.at = .ok ch.outpoint ∧ ch.script = c.script ∧
      c.at ∉ p.wallet.yedReserved A 0 := by
  obtain ⟨cs, hcs, h⟩ := Result.bind_eq_ok.mp h
  cases h
  obtain ⟨e, he, rfl⟩ := List.mem_map.mp hch
  obtain ⟨c, hc, hread, hscript⟩ := mem_readCoins hcs ((List.mem_insertionSort _).mp he)
  obtain ⟨e', he', heq⟩ := List.mem_map.mp hc
  obtain ⟨hmem, hkeep⟩ := List.mem_filter.mp he'
  obtain ⟨rfl, -⟩ := Prod.mk.inj heq
  refine ⟨e'.1, mem_availableCoins hmem, hread, hscript, fun hres ↦ ?_⟩
  simp [hres] at hkeep

theorem free_spendableYec {p : Purse} {minDepth : Int} {withPq : Bool} {chosen : List Chosen}
    (h : p.spendableYec A minDepth withPq = .ok chosen) {ch : Chosen} (hch : ch ∈ chosen) :
    Free A p.wallet 0 ch.outpoint := by
  obtain ⟨c, hc, hread, -, hfree⟩ := mem_spendableYec h hch
  exact ⟨c, hc, hread, hfree⟩

theorem mem_gather {needed got : Int} {cs : List Chosen} {c : Chosen}
    (h : c ∈ gather needed got cs) : c ∈ cs := by
  induction cs generalizing got with
  | nil => cases h
  | cons d cs ih =>
    rw [gather] at h
    split at h
    · cases h
    · rcases List.mem_cons.mp h with rfl | h
      · exact List.mem_cons_self
      · exact List.mem_cons_of_mem d (ih h)

theorem mem_gatherBy {α : Type} {value : α → Int} {needed got : Int} {cs : List α} {c : α}
    (h : c ∈ gatherBy value needed got cs) : c ∈ cs := by
  induction cs generalizing got with
  | nil => cases h
  | cons d cs ih =>
    rw [gatherBy] at h
    split at h
    · cases h
    · rcases List.mem_cons.mp h with rfl | h
      · exact List.mem_cons_self
      · exact List.mem_cons_of_mem d (ih h)

theorem mem_fundChoice {mode : FundMode} {needed : Int} {cs : List Chosen} {c : Chosen}
    (h : c ∈ fundChoice mode needed cs) : c ∈ cs := by
  unfold fundChoice at h
  dsimp only at h
  split at h
  · rename_i d hd
    obtain rfl := List.mem_singleton.mp h
    split at hd
    · exact List.mem_reverse.mp (List.mem_of_find?_eq_some hd)
    · cases hd
  · exact mem_gather h

/-- A pick that comes out takes the first coin and stops there or goes on. -/
theorem pick_cons_eq_enough {info : YedInfo} {prior : List Bytes} {picked cs coins : List Chosen}
    {need fee out : Int} {c : Chosen}
    (h : pick info prior picked need fee (c :: cs) = .enough coins out) :
    let next := info.networkFee (prior ++ (picked ++ [c]).map Chosen.script)
    need + (max fee next - fee) ≤ worth (picked ++ [c]) ∧ coins = picked ++ [c] ∧
        out = max fee next ∨
      pick info prior (picked ++ [c]) (need + (max fee next - fee)) (max fee next) cs =
        .enough coins out := by
  intro next
  rw [pick] at h
  dsimp only at h
  split at h
  · cases h
  have hneed : (if fee < next then need + (next - fee) else need) = need + (max fee next - fee) := by
    split <;> omega
  have hfee : (if fee < next then next else fee) = max fee next := by
    split <;> omega
  rw [hneed, hfee] at h
  split at h
  · cases h
    exact .inl ⟨‹_›, rfl, rfl⟩
  · exact .inr h

theorem mem_pick {info : YedInfo} {prior : List Bytes} {picked cs coins : List Chosen}
    {need fee out : Int} (h : pick info prior picked need fee cs = .enough coins out) {c : Chosen}
    (hc : c ∈ coins) : c ∈ picked ∨ c ∈ cs := by
  induction cs generalizing picked need fee with
  | nil => cases h
  | cons d cs ih =>
    have hmove (hc : c ∈ picked ++ [d] ∨ c ∈ cs) : c ∈ picked ∨ c ∈ d :: cs := by
      rcases hc with hc | hc
      · rcases List.mem_append.mp hc with hc | hc
        · exact .inl hc
        · exact .inr (List.mem_singleton.mp hc ▸ List.mem_cons_self)
      · exact .inr (List.mem_cons_of_mem d hc)
    rcases pick_cons_eq_enough h with ⟨-, rfl, -⟩ | h
    · exact hmove (.inl hc)
    · exact hmove (ih h)

theorem mem_pickBest {info : YedInfo} {prior : List Bytes} {needed fee out : Int}
    {cand coins : List Chosen} (h : pickBest info prior needed fee cand = .enough coins out)
    {c : Chosen} (hc : c ∈ coins) : c ∈ cand := by
  unfold pickBest at h
  dsimp only at h
  split at h
  · rcases mem_pick h hc with hc | hc
    · cases hc
    · exact (List.mem_insertionSort _).mp (List.mem_reverse.mp hc)
  · rcases mem_pick h hc with hc | hc
    · cases hc
    · exact (List.mem_insertionSort _).mp hc

theorem free_pickable {p : Purse} {cand : List Chosen} (h : p.pickable A = .ok cand) {ch : Chosen}
    (hch : ch ∈ cand) : ∃ r ∈ [1, 2], Free A p.wallet r ch.outpoint := by
  obtain ⟨plain, hplain, h⟩ := Result.bind_eq_ok.mp h
  obtain ⟨pq, hpq, h⟩ := Result.bind_eq_ok.mp h
  cases h
  rcases List.mem_append.mp hch with hch | hch
  · exact ⟨1, by simp, free_eligible hplain hch⟩
  · obtain ⟨e, he, rfl⟩ := List.mem_map.mp hch
    obtain ⟨c, hc, hread, -⟩ := mem_readCoins hpq he
    obtain ⟨c', hc', heq⟩ := List.mem_map.mp hc
    obtain ⟨rfl, -⟩ := Prod.mk.inj heq
    obtain ⟨hmem, hfree⟩ := mem_pqCandidates hc'
    exact ⟨2, by simp, c', hmem, hread, hfree⟩

variable {env : Env}

theorem mem_sendRound {fees : PlainFees} {sendChangeBack : Bool} {fault : Option String}
    {expiryHeight : UInt32} {coins : List Chosen} {recipients : List Recipient} {fee : Int}
    {p p' : Purse} {r : Int × List Chosen × List Out}
    (h : sendRound env fees sendChangeBack fault expiryHeight coins recipients fee p = (.ok r, p')) :
    ∀ c ∈ r.2.1, c ∈ coins := by
  obtain ⟨outs, -, h⟩ := lift_bind_eq_ok.mp h
  obtain ⟨-, h⟩ := guard_eq_ok.mp h
  obtain ⟨_, _, -, h⟩ := bind_eq_ok.mp h
  obtain ⟨want, -, h⟩ := lift_bind_eq_ok.mp h
  cases h
  exact fun c hc ↦ mem_gather hc

theorem mem_sendRounds {sendChangeBack : Bool} {next : Next} {coins : List Chosen}
    {recipients : List Recipient} {rounds : List (PlainFees × Option String)} {fee : Int}
    {p p' : Purse} {ask : SignAsk}
    (h : sendRounds env sendChangeBack next coins recipients rounds fee p = (.ok ask, p')) :
    ∀ i ∈ ask.inputs, i.1 ∈ coins := by
  induction rounds generalizing fee p with
  | nil => cases h
  | cons r rs ih =>
    obtain ⟨⟨want, chosen, outs⟩, p₁, hround, h⟩ := bind_eq_ok.mp h
    dsimp only at h
    split at h
    · exact ih h
    · obtain ⟨_, _, ⟨⟩, h⟩ := bind_eq_ok.mp h
      cases h
      intro i hi
      obtain ⟨c, hc, rfl⟩ := List.mem_map.mp hi
      exact mem_sendRound hround c hc

theorem mem_sendManyRound {zSource coinbaseOk : Bool} {coins : List SendCoin}
    {notes : List NoteRow} {total needFee : Int} {nTOut nZOut : Nat} {fee : Option Int}
    {r : Int × SendChoice}
    (h : sendManyRound zSource coinbaseOk coins notes total nTOut nZOut fee needFee = .ok r) :
    ∀ c ∈ r.2.coins, zSource = false ∧ c ∈ coins := by
  have hsel : ∀ c ∈ (if zSource then [] else
      gatherBy (fun c : SendCoin ↦ c.coin.value) (total + needFee) 0 coins),
      zSource = false ∧ c ∈ coins := by
    split
    · nofun
    · rename_i hz
      exact fun c hc ↦ ⟨by simpa using hz, mem_gatherBy hc⟩
  unfold sendManyRound at h
  dsimp only at h
  obtain ⟨-, h⟩ := Result.guard_eq_ok.mp h
  obtain ⟨-, h⟩ := Result.guard_eq_ok.mp h
  split at h
  · obtain ⟨-, h⟩ := Result.guard_eq_ok.mp h
    cases h
    exact hsel
  · cases h
    exact hsel

theorem mem_sendManyRounds {zSource coinbaseOk : Bool} {coins : List SendCoin}
    {notes : List NoteRow} {total : Int} {nTOut nZOut : Nat} {fee : Option Int} {n : Nat}
    {needFee : Int} {last choice : SendChoice}
    (h : sendManyRounds zSource coinbaseOk coins notes total nTOut nZOut fee n needFee last =
      .ok choice) (hlast : ∀ c ∈ last.coins, zSource = false ∧ c ∈ coins) :
    ∀ c ∈ choice.coins, zSource = false ∧ c ∈ coins := by
  induction n generalizing needFee last with
  | zero =>
    cases h
    exact hlast
  | succ n ih =>
    obtain ⟨⟨want, choice'⟩, hround, h⟩ := Result.bind_eq_ok.mp h
    have hmem := mem_sendManyRound hround
    dsimp only at h
    split at h
    · cases h
      exact hmem
    · exact ih h hmem

theorem free_sendCandidates {p : Purse} (hw : p.wallet.Backed) {source : Source}
    {coinbaseOk : Bool} {min : Int} {coins : List SendCoin}
    (h : p.sendCandidates A source coinbaseOk min = .ok coins) {c : SendCoin} (hc : c ∈ coins) :
    Free A p.wallet 0 c.coin.outpoint := by
  obtain ⟨cs, hcs, h⟩ := Result.bind_eq_ok.mp h
  cases h
  obtain ⟨e, he, rfl⟩ := List.mem_map.mp ((List.mem_insertionSort _).mp hc)
  obtain ⟨he, hkeep⟩ := List.mem_filter.mp he
  obtain ⟨c, hc, hread, -⟩ := mem_readCoins hcs he
  obtain ⟨e', he', heq⟩ := List.mem_map.mp hc
  obtain ⟨rfl, -⟩ := Prod.mk.inj heq
  have hcoin : e'.1 ∈ p.wallet.coins := by
    obtain ⟨a, ha, hsome⟩ := List.mem_filterMap.mp he'
    obtain ⟨-, hsome⟩ := Option.ite_none_left_eq_some.mp hsome
    split at hsome
    · cases hsome
    · obtain ⟨-, hsome⟩ := Option.ite_none_left_eq_some.mp hsome
      obtain ⟨-, hsome⟩ := Option.ite_none_left_eq_some.mp hsome
      cases hsome
      exact mem_availableCoins ha
  refine ⟨e'.1, hcoin, hread, fun hres ↦ ?_⟩
  rw [hw.at_eq hcoin hread] at hres
  simp [hres] at hkeep

theorem mem_runSendmany {p : Purse} {source : Source} {recipients : List (Int × Bool)}
    {hasT : Bool} {min : Int} {fee : Option Int} {policy : Policy} {choice : SendChoice}
    (h : p.runSendmany A source recipients hasT min fee policy = .ok choice) {c : SendCoin}
    (hc : c ∈ choice.coins) : (∀ address, source ≠ .z address) ∧
      ∃ coinbaseOk coins, p.sendCandidates A source coinbaseOk min = .ok coins ∧ c ∈ coins := by
  unfold Purse.runSendmany at h
  obtain ⟨-, h⟩ := Result.guard_eq_ok.mp h
  split at h
  · exact absurd (mem_sendManyRounds h (List.forall_mem_nil _) c hc).1 (by decide)
  · rename_i hsource
    obtain ⟨-, h⟩ := Result.guard_eq_ok.mp h
    obtain ⟨coins, hcoins, h⟩ := Result.bind_eq_ok.mp h
    exact ⟨hsource, _, coins, hcoins, (mem_sendManyRounds h (List.forall_mem_nil _) c hc).2⟩

/-! ## The selectors -/

/-- A call of one of the selectors of plain YEC. -/
inductive Selector where
  | fund (fault : Option String) (vin : List OutPoint) (outs : List Out) (inputValue fee : Int)
    (mode : FundMode)
  | sendYec (sendChangeBack : Bool) (rounds : Fin 8 → PlainFees × Option String)
    (recipients : List Recipient) (minDepth : Int)
  | pickYec (needed : Int) (info : YedInfo) (prior : List Bytes) (fee : Int)
  | sendmany (source : Source) (recipients : List (Int × Bool)) (hasT : Bool) (min : Int)
    (fee : Option Int) (policy : Policy)

namespace Selector

/-- The outpoints the selector takes as plain YEC.  Those of `vin`, which the caller of `fund`
named, are not among them. -/
def choose (env : Env) (A : Answers) : Selector → Proc Purse RpcError (List OutPoint)
  | .fund fault vin outs inputValue fee mode => do
    let r ← Daemon.fund env A fault vin outs inputValue fee mode
    return r.2.2.map Chosen.outpoint
  | .sendYec sendChangeBack rounds recipients minDepth => do
    let ask ← Daemon.sendYec env A sendChangeBack rounds recipients minDepth
    return ask.inputs.map fun i ↦ i.1.outpoint
  | .pickYec needed info prior fee => do
    let p ← get
    let r ← lift (p.pickYec A needed info prior fee)
    return r.1.map Chosen.outpoint
  | .sendmany source recipients hasT min fee policy => do
    let p ← get
    let choice ← lift (p.runSendmany A source recipients hasT min fee policy)
    return choice.coins.map fun c ↦ c.coin.outpoint

/-- The readings of the token state a selector makes. -/
def readings : Selector → List Nat
  | .fund .. | .sendYec .. => [0]
  | .pickYec needed .. => if needed ≤ 0 then [] else [1, 2]
  | .sendmany source .. => if source matches .z _ then [] else [0]

/-- What a selector chose is free by one of its readings. -/
theorem free_choose {sel : Selector} {p p' : Purse} (hw : p.wallet.Backed) {chosen : List OutPoint}
    (h : sel.choose env A p = (.ok chosen, p')) {op : OutPoint} (hop : op ∈ chosen) :
    ∃ r ∈ sel.readings, Free A p.wallet r op := by
  cases sel with
  | fund fault vin outs inputValue fee mode =>
    obtain ⟨r, p₁, hrun, h⟩ := bind_eq_ok.mp h
    cases h
    obtain ⟨ch, hch, rfl⟩ := List.mem_map.mp hop
    obtain ⟨cs, hcs, hrun⟩ := lift_bind_eq_ok.mp hrun
    obtain ⟨-, hrun⟩ := guard_eq_ok.mp hrun
    obtain ⟨_, _, -, hrun⟩ := bind_eq_ok.mp hrun
    obtain ⟨_, _, -, hrun⟩ := bind_eq_ok.mp hrun
    cases hrun
    exact ⟨0, List.mem_cons_self, free_eligible hcs (mem_fundChoice hch)⟩
  | sendYec sendChangeBack rounds recipients minDepth =>
    obtain ⟨ask, p₁, hrun, h⟩ := bind_eq_ok.mp h
    cases h
    obtain ⟨i, hi, rfl⟩ := List.mem_map.mp hop
    obtain ⟨next, -, hrun⟩ := lift_bind_eq_ok.mp hrun
    obtain ⟨coins, hcoins, hrun⟩ := lift_bind_eq_ok.mp hrun
    exact ⟨0, List.mem_cons_self, free_spendableYec hcoins (mem_sendRounds hrun i hi)⟩
  | pickYec needed info prior fee =>
    obtain ⟨r, hr, h⟩ := lift_bind_eq_ok.mp h
    cases h
    obtain ⟨ch, hch, rfl⟩ := List.mem_map.mp hop
    unfold Purse.pickYec at hr
    split at hr
    · cases hr
      cases hch
    · rename_i hneeded
      obtain ⟨cand, hcand, hr⟩ := Result.bind_eq_ok.mp hr
      split at hr
      · rename_i coins out hpick
        cases hr
        have hreadings : (Selector.pickYec needed info prior fee).readings = [1, 2] :=
          if_neg hneeded
        rw [hreadings]
        exact free_pickable hcand (mem_pickBest hpick hch)
      · cases hr
      · cases hr
  | sendmany source recipients hasT min fee policy =>
    obtain ⟨choice, hr, h⟩ := lift_bind_eq_ok.mp h
    cases h
    obtain ⟨c, hc, rfl⟩ := List.mem_map.mp hop
    obtain ⟨hsource, coinbaseOk, coins, hcoins, hmem⟩ := mem_runSendmany hr hc
    refine ⟨0, ?_, free_sendCandidates hw hcoins hmem⟩
    cases source with
    | z address => exact absurd rfl (hsource address)
    | anyTaddr => exact List.mem_cons_self
    | t script => exact List.mem_cons_self

/-- What is asked of a selector that came out: it read the token state, and no coin it chose holds
cents. -/
def Spares (A : Answers) (w : Wallet) (sel : Selector) (chosen : List OutPoint) : Prop :=
  (∀ r ∈ sel.readings, ∃ ts, w.tokens A r = .ok ts) ∧ ∀ op ∈ chosen, ¬ A.Carries op

/-- A selector that comes out spares the coins that hold YED exactly when every `yed_listtokens`
call of its readings was answered. -/
theorem spares_iff_answered (env : Env) (sel : Selector) {p p' : Purse} {chosen : List OutPoint}
    (hw : p.wallet.Backed) (hA : A.Names p.wallet)
    (h : sel.choose env A p = (.ok chosen, p')) :
    sel.Spares A p.wallet chosen ↔ ∀ r ∈ sel.readings, p.wallet.Answered A r := by
  constructor
  · exact fun hs r hr ↦ Wallet.tokens_isOk.mp (hs.1 r hr)
  · refine fun hall ↦ ⟨fun r hr ↦ Wallet.tokens_isOk.mpr (hall r hr), fun op hop ↦ ?_⟩
    obtain ⟨r, hr, c, hc, hread, hfree⟩ := free_choose hw h hop
    exact hw.not_carries hA (hall r hr) hc hfree hread

end Selector

/-! ### A token spent as YEC -/

/-- The txid of a payment to the wallet. -/
def payTxid : Arr 32 := List.Vector.replicate 32 1

/-- The script it pays. -/
def payScript : Bytes := p2pkhScript (List.Vector.replicate 20 0)

/-- The payment: two coins, of 70,000 and 60,000. -/
def payBytes : Bytes :=
  [4, 0, 0, 0x80, 0x85, 0x20, 0x2f, 0x89, 1] ++ List.replicate 32 2 ++
    [0, 0, 0, 0, 0, 0xff, 0xff, 0xff, 0xff, 2] ++
    [0x70, 0x11, 1, 0, 0, 0, 0, 0, 25] ++ payScript ++
    [0x60, 0xea, 0, 0, 0, 0, 0, 0, 25] ++ payScript ++ List.replicate 19 0

/-- No transaction has notes of the wallet. -/
def payEnv : Env :=
  { noteEnv with
    view := ⟨fun _ ↦ .ok ⟨[], [], 0⟩, fun _ _ ↦ List.Vector.replicate 32 0⟩ }

/-- The payment is in block 1. -/
def payNode : Node where
  chain := [⟨"genesis", "", 0, [], some 0⟩,
    ⟨"paid", "genesis", 0, [⟨txidHex payTxid, payBytes⟩], some 0⟩]
  mempool := []
  accepts := fun _ ↦ false

/-- A new wallet that has read the chain. -/
def paidWallet : Wallet := (sync payEnv .quiet payNode 0 (refreshKeys payEnv none newWallet).2).2

/-- The wallet with no coin locked. -/
def paidPurse : Purse := ⟨paidWallet, .empty, false⟩

/-- The node lists the larger coin as a token of five dollars; `yed_listtokens` may fail. -/
def payAnswers (fault : Option NodeError) : Answers where
  tokens := [⟨txidHex payTxid, 0, 500, payScript⟩]
  tokensFault := fun _ _ ↦ fault
  txout := fun o ↦
    .ok (some ⟨some (if o.n = 0 then 70000 else 60000), .ok payScript, 1, "paid", false⟩)
  headerHeight := fun _ ↦ .ok 1
  blockCount := .ok 1
  blocks := .ok 1
  nextBranch := some 0

/-- A payment of 50,000 at a fee of 1,000. -/
def payCall : Selector := .fund none [] [⟨50000, payScript⟩] 0 1000 .largestFirst

theorem paidPurse_wallet : paidPurse.wallet = paidWallet := by rw [paidPurse]

theorem paidPurse_backed : paidPurse.wallet.Backed := by
  rw [paidPurse_wallet]
  have hfits : payNode.Fits := by
    refine ⟨?_, nofun⟩
    intro b hb t ht
    rcases List.mem_pair.mp hb with rfl | rfl
    · cases ht
    · rw [List.mem_singleton.mp ht]
      exact ⟨⟨payTxid, rfl⟩, by decide +kernel⟩
  have hblank : newWallet.Kept payEnv := newWallet_blank.kept_of_book .empty nofun
  have hkept : paidWallet.Kept payEnv := keeps_sync hfits _ (keeps_refreshKeys none newWallet hblank)
  exact hkept.backed

theorem payAnswers_names (fault : Option NodeError) :
    (payAnswers fault).Names paidPurse.wallet := by
  rw [paidPurse_wallet]
  have hnames : ∀ c ∈ paidWallet.coins, c.script = payScript := by decide +kernel
  intro t ht c hc _
  rw [List.mem_singleton.mp ht, hnames c hc]

/-- `yed_listtokens` times out: the token is spent as plain YEC. -/
theorem chooses_token_unread :
    paidPurse.wallet.Backed ∧
      let A := payAnswers (some (.unreachable "timeout"))
      A.Names paidPurse.wallet ∧
        (payCall.choose payEnv A paidPurse).1 = .ok [⟨payTxid, 0⟩] ∧ A.Carries ⟨payTxid, 0⟩ := by
  refine ⟨paidPurse_backed, payAnswers_names _, by decide +kernel, ?_⟩
  exact ⟨⟨txidHex payTxid, 0, 500, payScript⟩, List.mem_singleton_self _, by simp, rfl⟩

/-- With an answer, the other coin is. -/
theorem spares_token_read :
    (payCall.choose payEnv (payAnswers none) paidPurse).1 = .ok [⟨payTxid, 1⟩] ∧
      payCall.Spares (payAnswers none) paidPurse.wallet [⟨payTxid, 1⟩] := by
  have hrun : (payCall.choose payEnv (payAnswers none) paidPurse).1 = .ok [⟨payTxid, 1⟩] := by
    decide +kernel
  refine ⟨hrun, ?_⟩
  have hanswered (r : Nat) : paidPurse.wallet.Answered (payAnswers none) r := fun _ _ ↦ rfl
  obtain ⟨p', hp'⟩ := exists_of_fst_eq hrun
  exact (Selector.spares_iff_answered payEnv payCall paidPurse_backed (payAnswers_names none)
    hp').mpr fun r _ ↦ hanswered r

end Yew.Daemon
