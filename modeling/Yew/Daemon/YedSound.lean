import Yew.Core.CoinExcess
import Yew.Daemon.Reserve

/-!
# What a YED send pays

The fee is settled by a loop that prices the coins it picked; whatever comes out of it is balanced,
covers the network fee of all inputs and the conventional fee of the transaction, and it comes out.
The tokens are worth the assignments.  That no coin is an input twice hangs on the token listing:
a script that the book holds twice may be asked about twice.

The function is `do_send` of `yewd/wallet/src/yed.rs`.  The wallet it starts from is one that a run
of syncs leaves (`Yew.Daemon.Backed`); the condition on the listing is about the scripts of the
tokens that are listed, and says that none of them stands in two of the chunks the node is asked
about.
-/

namespace Yew.Daemon

open Script Tx Pq Proto Proc Yellowback Build CoinSelect

/-! ## Picking -/

section Pick

variable {info : YedInfo} {prior : List Bytes}

/-- What a pick that came out has picked: a front of the coins that covers the need and what the
fee has risen by, at no less than the network fee. -/
theorem pick_eq_enough {picked cs coins : List Chosen} {need fee out : Int}
    (h : pick info prior picked need fee cs = .enough coins out) :
    (∃ more, coins = picked ++ more ∧ more <+: cs) ∧ fee ≤ out ∧ need + (out - fee) ≤ worth coins ∧
      info.networkFee (prior ++ coins.map Chosen.script) ≤ out := by
  induction cs generalizing picked need fee with
  | nil => cases h
  | cons c cs ih =>
    rcases pick_cons_eq_enough h with ⟨hle, rfl, rfl⟩ | h
    · exact ⟨⟨[c], rfl, by simp⟩, le_max_left _ _, hle, le_max_right _ _⟩
    · obtain ⟨⟨more, rfl, hmore⟩, hraised, hcovered, hpriced⟩ := ih h
      refine ⟨⟨c :: more, by simp, by simpa using hmore⟩, (le_max_left _ _).trans hraised, ?_,
        hpriced⟩
      omega

/-- The two orders `pick_yec` goes through. -/
def pickOrders (cand : List Chosen) : List (List Chosen) :=
  let order := cand.insertionSort fun a b ↦ a.value ≤ b.value
  [order, order.reverse]

theorem perm_of_mem_pickOrders {cand order : List Chosen} (h : order ∈ pickOrders cand) :
    order.Perm cand := by
  have hsort := List.perm_insertionSort (fun a b : Chosen ↦ a.value ≤ b.value) cand
  rcases List.mem_pair.mp h with rfl | rfl
  · exact hsort
  · exact (List.reverse_perm _).trans hsort

/-- What `pick_yec` guarantees of the coins it returns, with the fee `out`. -/
structure Covers (A : Answers) (p : Purse) (info : YedInfo) (prior : List Bytes)
    (needed fee : Int) (coins : List Chosen) (out : Int) : Prop where
  choice : coins = [] ∨ ∃ cand, p.pickable A = .ok cand ∧
    ∃ order ∈ pickOrders cand, coins <+: order
  raised : fee ≤ out
  covered : needed + (out - fee) ≤ worth coins
  priced : info.networkFee prior ≤ fee → info.networkFee (prior ++ coins.map Chosen.script) ≤ out

theorem pickYec_eq_ok {A : Answers} {p : Purse} {needed fee out : Int} {coins : List Chosen}
    (h : p.pickYec A needed info prior fee = .ok (coins, out)) :
    Covers A p info prior needed fee coins out := by
  unfold Purse.pickYec at h
  split at h
  · rename_i hneeded
    cases h
    refine ⟨.inl rfl, le_refl _, ?_, ?_⟩
    · simpa [worth] using hneeded
    · simp
  · obtain ⟨cand, hcand, h⟩ := Result.bind_eq_ok.mp h
    split at h
    · rename_i hpick
      cases h
      have hbest : ∃ order ∈ pickOrders cand,
          pick info prior [] needed fee order = .enough coins out := by
        unfold pickBest at hpick
        dsimp only at hpick
        split at hpick
        · exact ⟨_, List.mem_pair.mpr (.inr rfl), hpick⟩
        · exact ⟨_, List.mem_pair.mpr (.inl rfl), hpick⟩
      obtain ⟨order, horder, hpick⟩ := hbest
      obtain ⟨⟨more, hmore, hfront⟩, hraised, hcovered, hpriced⟩ := pick_eq_enough hpick
      rw [List.nil_append] at hmore
      subst hmore
      exact ⟨.inr ⟨cand, hcand, order, horder, hfront⟩, hraised, hcovered, fun _ ↦ hpriced⟩
    · cases h
    · cases h

end Pick

/-! ## The funding loop -/

namespace Draft

variable {A : Answers} {d : Draft} {p : Purse} {info : YedInfo}

/-- The conventional fee of a draft with YEC coins. -/
def conventional (d : Draft) (coins : List Chosen) (outs : List Out) : Int :=
  ((d.tx coins outs).zip317ConventionalFee (d.sizes coins)).toOption.getD 0

theorem worth_inputs (d : Draft) (coins : List Chosen) :
    worth (d.inputs coins) = (d.tokens.map YedCoin.value).sum + worth coins := by
  simp [worth, inputs, List.map_map, Function.comp_def]

theorem scripts_inputs (d : Draft) (coins : List Chosen) : (d.inputs coins).map Chosen.script =
    d.tokens.map YedCoin.script ++ coins.map Chosen.script := by
  simp [inputs, List.map_map, Function.comp_def]

/-- What one turn of the loop at a floor guarantees. -/
structure Turned (A : Answers) (d : Draft) (p : Purse) (info : YedInfo) (floor : Int)
    (f : Funded) : Prop where
  floor_le : floor ≤ f.fee
  balance : worth (d.inputs f.coins) - paid f.outs = f.fee
  network : info.networkFee ((d.inputs f.coins).map Chosen.script) ≤ f.fee
  outs : f.outs = d.outs ∨ ∃ change, 0 < change ∧ f.outs = d.outs ++ [⟨change, d.changeScript⟩]
  choice : f.coins = [] ∨ ∃ cand, p.pickable A = .ok cand ∧
    ∃ order ∈ pickOrders cand, f.coins <+: order

theorem turn_eq_ok {floor asked : Int} {f : Funded} (h : d.turn A p info floor = .ok (asked, f)) :
    d.Turned A p info floor f ∧
      asked = if f.fee < d.conventional f.coins f.outs then d.conventional f.coins f.outs
        else floor := by
  unfold turn at h
  dsimp only at h
  obtain ⟨⟨coins, fee⟩, hpick, h⟩ := Result.bind_eq_ok.mp h
  have hc := pickYec_eq_ok hpick
  generalize hfee₀ : max floor (info.networkFee (d.tokens.map YedCoin.script)) = fee₀ at *
  have hfloor : floor ≤ fee₀ := hfee₀ ▸ le_max_left _ _
  have hnet : info.networkFee (d.tokens.map YedCoin.script) ≤ fee₀ := hfee₀ ▸ le_max_right _ _
  generalize hchange : worth coins - (d.short + fee₀) - (fee - fee₀) = change at *
  have hcovered := hc.covered
  have hnonneg : ¬ change < 0 := by omega
  cases h
  dsimp only
  rw [if_neg hnonneg, add_zero, max_self]
  refine ⟨⟨hfloor.trans hc.raised, ?_, ?_, ?_, hc.choice⟩, rfl⟩
  · rw [worth_inputs, paid_append]
    have hshort : d.short = paid d.outs - (d.tokens.map YedCoin.value).sum := rfl
    split
    · simp only [paid_cons, paid_nil]
      omega
    · simp only [paid_nil]
      omega
  · rw [scripts_inputs]
    exact hc.priced hnet
  · split
    · exact .inr ⟨change, ‹_›, rfl⟩
    · exact .inl (List.append_nil _)

/-- A draft that was funded. -/
theorem fund_eq_ok {floor : Int} {f : Funded} (h : d.fund A p info = some (.ok (floor, f))) :
    d.Turned A p info floor f ∧ d.conventional f.coins f.outs ≤ f.fee := by
  obtain ⟨-, asked, hturn, hle⟩ := Climb.climb_eq_ok h
  obtain ⟨ht, hasked⟩ := turn_eq_ok hturn
  refine ⟨ht, ?_⟩
  have hfloor := ht.floor_le
  split at hasked <;> omega

/-- The conventional fee does not depend on the change. -/
theorem conventional_change (d : Draft) (coins : List Chosen) (outs : List Out) (change : Int)
    (script : Bytes) : d.conventional coins (outs ++ [⟨change, script⟩]) =
      d.conventional coins (outs ++ [⟨0, script⟩]) := by
  have hbytes : (d.tx coins (outs ++ [⟨change, script⟩])).outBytes =
      (d.tx coins (outs ++ [⟨0, script⟩])).outBytes := by
    simp [tx, newV4, Transaction.outBytes, Out.toTxOut]
  unfold conventional Transaction.zip317ConventionalFee
  rw [hbytes]
  rfl

/-- The conventional fees of the choices there are. -/
def figures (d : Draft) (cand : List Chosen) : Finset Int :=
  (((pickOrders cand).flatMap List.inits).flatMap fun coins ↦
    [d.conventional coins d.outs, d.conventional coins (d.outs ++ [⟨0, d.changeScript⟩])]).toFinset

theorem card_figures_le (d : Draft) (cand : List Chosen) :
    (d.figures cand).card ≤ 4 * (cand.length + 1) := by
  refine (List.toFinset_card_le _).trans ?_
  simp [pickOrders, List.length_flatMap, List.length_inits]
  omega

/-- The loop ends. -/
theorem fund_ne_none (A : Answers) (d : Draft) (p : Purse) (info : YedInfo) :
    d.fund A p info ≠ none := by
  have hfigures : ∀ floor asked f, d.turn A p info floor = .ok (asked, f) → floor < asked →
      asked ∈ d.figures ((p.pickable A).toOption.getD []) := by
    intro floor asked f hturn hlt
    obtain ⟨ht, hasked⟩ := turn_eq_ok hturn
    have hconv : asked = d.conventional f.coins f.outs := by
      split at hasked
      · exact hasked
      · omega
    have hcoins : f.coins ∈ (pickOrders ((p.pickable A).toOption.getD [])).flatMap List.inits := by
      rcases ht.choice with hnil | ⟨cand, hcand, order, horder, hfront⟩
      · rw [hnil]
        exact List.mem_flatMap.mpr ⟨_, List.mem_cons_self, by simp⟩
      · rw [hcand]
        exact List.mem_flatMap.mpr ⟨order, horder, (List.mem_inits _ _).mpr hfront⟩
    rw [figures, List.mem_toFinset, List.mem_flatMap]
    refine ⟨f.coins, hcoins, ?_⟩
    rw [hconv]
    rcases ht.outs with houts | ⟨change, -, houts⟩
    · rw [houts]
      exact List.mem_cons_self
    · rw [houts, d.conventional_change f.coins d.outs change]
      exact List.mem_cons_of_mem _ List.mem_cons_self
  refine Climb.climb_ne_none hfigures ?_
  refine Nat.lt_of_le_of_lt ((Finset.card_filter_le _ _).trans (d.card_figures_le _)) ?_
  rw [turns]
  omega

end Draft

/-! ## The token listing -/

/-- An outpoint as the node spells it. -/
def shown (op : OutPoint) : String × UInt32 := (txidHex op.txid, op.n)

theorem nodup_of_shown {α : Type} {f : α → OutPoint} {l : List α}
    (h : (l.map fun x ↦ shown (f x)).Nodup) : (l.map f).Nodup := by
  have hcomp : (l.map fun x ↦ shown (f x)) = (l.map f).map shown := by
    rw [List.map_map]
    rfl
  rw [hcomp] at h
  exact h.of_map

/-- The script of no token stands in two of the chunks in which the listing of the tokens is asked
for. -/
def Wallet.ListsOnce (w : Wallet) (A : Answers) : Prop :=
  (chunks 100 w.tokenScripts).Pairwise fun c c' ↦ ∀ t ∈ A.tokens, t.script ∈ c → t.script ∉ c'

/-- The cents an outpoint holds by the node's token state. -/
def Answers.centsAt (A : Answers) (op : OutPoint) : Int :=
  ((A.tokens.find? fun t ↦ t.at = shown op).map YedToken.cents).getD 0

/-- The node during one call: `yed_listtokens` is answered or is not, and the token state is a set
of outputs, each with its script and its cents. -/
structure Answers.Steady (A : Answers) (w : Wallet) : Prop where
  fixed : ∀ reading chunk, A.tokensFault reading chunk = A.tokensFault 0 0
  apart : (A.tokens.map YedToken.at).Nodup
  names : A.Names w
  small : ∀ t ∈ A.tokens, t.cents ≤ maxSendCents

section Listing

variable {A : Answers} {w : Wallet}

/-- One call lists every token once. -/
theorem Wallet.listsOnce_of_length_le (h : w.tokenScripts.length ≤ 100) : w.ListsOnce A := by
  have hone : (w.tokenScripts.length + 100 - 1) / 100 ≤ 1 := by omega
  unfold Wallet.ListsOnce chunks
  interval_cases hn : (w.tokenScripts.length + 100 - 1) / 100
  · exact List.Pairwise.nil
  · exact List.pairwise_singleton _ _

theorem centsAt_eq (hapart : (A.tokens.map YedToken.at).Nodup) {t : YedToken} (ht : t ∈ A.tokens)
    {op : OutPoint} (hop : t.at = shown op) : A.centsAt op = t.cents := by
  have hfind : A.tokens.find? (fun t ↦ t.at = shown op) = some t := by
    have hsome : (A.tokens.find? fun t ↦ t.at = shown op).isSome :=
      List.find?_isSome.mpr ⟨t, ht, decide_eq_true hop⟩
    obtain ⟨t', ht'⟩ := Option.isSome_iff_exists.mp hsome
    have hat := List.find?_some ht'
    rw [decide_eq_true_eq] at hat
    rw [ht', List.inj_on_of_nodup_map hapart (List.mem_of_find?_eq_some ht') ht (hat.trans hop.symm)]
  rw [Answers.centsAt, hfind]
  rfl

theorem mem_listTokens {reading : Nat} {cs : List (List Bytes × Nat)} {ts : List YedToken}
    (h : listTokens A reading cs = .ok ts) {t : YedToken} (ht : t ∈ ts) :
    t ∈ A.tokens ∧ ∃ c ∈ cs.map Prod.fst, t.script ∈ c := by
  induction cs generalizing ts with
  | nil =>
    cases h
    cases ht
  | cons c cs ih =>
    rw [listTokens] at h
    split at h
    · cases h
    · obtain ⟨ts', hts', h⟩ := Result.bind_eq_ok.mp h
      cases h
      rcases List.mem_append.mp ht with ht | ht
      · obtain ⟨htoken, hscript⟩ := List.mem_filter.mp ht
        exact ⟨htoken, c.1, List.mem_cons_self, by simpa using hscript⟩
      · obtain ⟨htoken, c', hc', hscript⟩ := ih hts' ht
        exact ⟨htoken, c', List.mem_cons_of_mem _ hc', hscript⟩

/-- Where no token's script is asked about twice, no token is listed twice. -/
theorem nodup_listTokens (hapart : (A.tokens.map YedToken.at).Nodup) {reading : Nat}
    {cs : List (List Bytes × Nat)}
    (hcs : (cs.map Prod.fst).Pairwise fun c c' ↦ ∀ t ∈ A.tokens, t.script ∈ c → t.script ∉ c')
    {ts : List YedToken} (h : listTokens A reading cs = .ok ts) : (ts.map YedToken.at).Nodup := by
  induction cs generalizing ts with
  | nil =>
    cases h
    exact List.nodup_nil
  | cons c cs ih =>
    rw [listTokens] at h
    split at h
    · cases h
    · obtain ⟨ts', hts', h⟩ := Result.bind_eq_ok.mp h
      cases h
      rw [List.map_cons, List.pairwise_cons] at hcs
      rw [List.map_append, List.nodup_append]
      refine ⟨hapart.sublist (List.filter_sublist.map _), ih hcs.2 hts', ?_⟩
      rintro a ha b hb rfl
      obtain ⟨t, ht, rfl⟩ := List.mem_map.mp ha
      obtain ⟨t', ht', hat⟩ := List.mem_map.mp hb
      obtain ⟨htoken, hscript⟩ := List.mem_filter.mp ht
      obtain ⟨htoken', c', hc', hscript'⟩ := mem_listTokens hts' ht'
      obtain rfl := List.inj_on_of_nodup_map hapart htoken' htoken hat
      exact hcs.1 c' hc' _ htoken (by simpa using hscript) hscript'

theorem mem_of_mem_chunks {α : Type} {n : Nat} {l c : List α} (hc : c ∈ chunks n l) {x : α}
    (hx : x ∈ c) : x ∈ l := by
  obtain ⟨i, -, rfl⟩ := List.mem_map.mp hc
  exact List.mem_of_mem_drop (List.mem_of_mem_take hx)

/-- The coin `y` is a token of the listing at a coin of the wallet. -/
structure Listed (A : Answers) (w : Wallet) (y : YedCoin) : Prop where
  token : ∃ t ∈ A.tokens, t.script ∈ w.tokenScripts ∧
    t.at = shown y.outpoint ∧ y.cents = t.cents

theorem tokenCoins_eq_ok (hw : w.Backed) {ts : List YedToken} {cs : List YedCoin}
    (h : w.tokenCoins ts = .ok cs) :
    (cs.map fun y ↦ (shown y.outpoint, y.cents)).Sublist
      (ts.map fun t ↦ (t.at, t.cents)) := by
  induction ts generalizing cs with
  | nil =>
    cases h
    exact List.Sublist.refl _
  | cons t ts ih =>
    rw [Wallet.tokenCoins] at h
    split at h
    · exact (ih h).cons _
    split at h
    · exact (ih h).cons _
    · rename_i c hc
      obtain ⟨op, hop, h⟩ := Result.bind_eq_ok.mp h
      obtain ⟨rest, hrest, h⟩ := Result.bind_eq_ok.mp h
      cases h
      have hat : c.at = t.at := by simpa using List.find?_some hc
      rw [← hat] at hop
      have hspelled := hw.at_eq (List.mem_of_find?_eq_some hc) hop
      rw [List.map_cons, List.map_cons, ← hat, hspelled]
      exact (ih hrest).cons_cons _

/-- What the ranked coins are: tokens of the listing, and each once if no token's script is asked
about twice. -/
theorem rankedCoins_eq_ok (hw : w.Backed) (hA : A.Steady w) {coins : List YedCoin}
    (h : w.rankedCoins A = .ok coins) :
    (∀ y ∈ coins, Listed A w y) ∧
      (w.ListsOnce A → (coins.map YedCoin.outpoint).Nodup) ∧
      (coins ≠ [] → A.tokensFault 0 0 = none) := by
  obtain ⟨ts, hts, h⟩ := Result.bind_eq_ok.mp h
  obtain ⟨cs, hcs, h⟩ := Result.bind_eq_ok.mp h
  cases h
  have hsub := tokenCoins_eq_ok hw hcs
  have hperm := List.perm_insertionSort YedCoin.before cs
  have hchunks : (chunks 100 w.tokenScripts).zipIdx.map Prod.fst = chunks 100 w.tokenScripts :=
    List.zipIdx_map_fst _ _
  have hlisted : ∀ y ∈ cs.insertionSort YedCoin.before, Listed A w y := by
    intro y hy
    obtain ⟨t, ht, heq⟩ := List.mem_map.mp (hsub.subset (List.mem_map_of_mem (hperm.mem_iff.mp hy)))
    obtain ⟨hat, hcents⟩ := Prod.mk.inj heq
    obtain ⟨htoken, c, hc, hscript⟩ := mem_listTokens hts ht
    rw [hchunks] at hc
    exact ⟨t, htoken, mem_of_mem_chunks hc hscript, hat, hcents.symm⟩
  refine ⟨hlisted, fun honce ↦ ?_, fun hne ↦ ?_⟩
  · have hnodup := nodup_listTokens hA.apart (hchunks.symm ▸ honce) hts
    refine (hperm.map _).nodup_iff.mpr ?_
    have hats : (cs.map fun y ↦ shown y.outpoint).Nodup := by
      have hsub' := hsub.map Prod.fst
      simp only [List.map_map, Function.comp_def] at hsub'
      exact hnodup.sublist hsub'
    exact nodup_of_shown hats
  · obtain ⟨y, hy⟩ := List.exists_mem_of_ne_nil _ hne
    obtain ⟨t, -, hscript, -⟩ := (hlisted y hy).token
    obtain ⟨c, hc, -⟩ := exists_mem_chunks (n := 100) (by decide) hscript
    exact w.tokens_isOk.mp ⟨ts, hts⟩ 0 (List.length_pos_of_mem hc)

end Listing

theorem selectTokens_eq_ok {coins tokens : List YedCoin} {needed change : Int}
    (hpos : 0 < needed) (h : selectTokens coins needed = .ok (tokens, change)) :
    tokens.Sublist coins ∧ tokens.length ≤ maxInputs ∧
      (tokens.map YedCoin.cents).sum = needed + change ∧ 0 ≤ change := by
  unfold selectTokens at h
  dsimp only at h
  split at h
  · rename_i hok
    have hstages := selectStages_of_ok hpos hok
    generalize selectFloorAware (coins.map YedCoin.cents) needed minOutputCents maxInputs false = s
      at *
    cases h
    obtain ⟨-, hstage, ha⟩ :=
      (@answers_selectStages _ _ _ _ (by decide : 0 < maxInputs) false) hstages
    have hbounded : ∀ i ∈ s.inputs, i < coins.length := by simpa using ha.bounded
    refine ⟨sublist_filterMap_getElem? coins ha.ascending, ?_, ?_, ?_⟩
    · exact (List.length_filterMap_le _ _).trans ha.length_le
    · rw [sum_filterMap_getElem? YedCoin.cents hbounded, ha.sum_eq, ha.balance, ha.noBurn hstage]
      omega
    · have hchange := ha.change
      rw [minOutputCents] at hchange
      omega
  · split at h
    · cases h
    · split at h <;> cases h

/-! ## The coins to pick from -/

section Candidates

variable {A : Answers} {p : Purse}

theorem sublist_availableCoins (p : Purse) :
    (p.availableCoins.map Prod.fst).Sublist p.wallet.coins := by
  unfold Purse.availableCoins
  dsimp only
  induction p.wallet.coins with
  | nil => exact List.Sublist.refl _
  | cons c cs ih =>
    rw [List.filterMap_cons]
    split
    · exact ih.cons _
    · rename_i e he
      have hfst : e.1 = c := by
        split at he
        · cases he
        split at he
        · cases he
        · cases he
          rfl
      rw [List.map_cons, hfst]
      exact ih.cons_cons _

theorem sublist_confirmedCoins {w : Wallet} (hw : w.Backed) {used : List OutPoint} {cs : List Coin}
    (hcs : ∀ c ∈ cs, c ∈ w.coins) {chosen : List Chosen}
    (h : confirmedCoins A used cs = .ok chosen) :
    (chosen.map fun c ↦ shown c.outpoint).Sublist (cs.map Coin.at) := by
  induction cs generalizing chosen with
  | nil =>
    cases h
    exact List.Sublist.refl _
  | cons c cs ih =>
    obtain ⟨hc, hcs⟩ := List.forall_mem_cons.mp hcs
    rw [confirmedCoins] at h
    obtain ⟨op, hop, h⟩ := Result.bind_eq_ok.mp h
    split at h
    · exact (ih hcs h).cons _
    · obtain ⟨n, -, h⟩ := Result.bind_eq_ok.mp h
      obtain ⟨rest, hrest, h⟩ := Result.bind_eq_ok.mp h
      cases h
      split
      · rw [List.map_cons, List.map_cons, hw.at_eq hc hop]
        exact (ih hcs hrest).cons_cons _
      · exact (ih hcs hrest).cons _

theorem sublist_readCoins {w : Wallet} (hw : w.Backed) {α : Type} {cs : List (Coin × α)}
    (hcs : ∀ c ∈ cs, c.1 ∈ w.coins) {chosen : List (Chosen × α)} (h : readCoins cs = .ok chosen) :
    (chosen.map fun c ↦ shown c.1.outpoint).Sublist (cs.map fun c ↦ c.1.at) := by
  induction cs generalizing chosen with
  | nil =>
    cases h
    exact List.Sublist.refl _
  | cons c cs ih =>
    obtain ⟨hc, hcs⟩ := List.forall_mem_cons.mp hcs
    rw [readCoins] at h
    obtain ⟨op, hop, h⟩ := Result.bind_eq_ok.mp h
    obtain ⟨rest, hrest, h⟩ := Result.bind_eq_ok.mp h
    cases h
    rw [List.map_cons, List.map_cons, hw.at_eq hc hop]
    exact (ih hcs hrest).cons_cons _

theorem owner_candidates {reading : Nat} {c : Coin} (h : c ∈ p.candidates A reading) :
    (c.owner matches .t _ _) = true := by
  obtain ⟨e, he, rfl⟩ := List.mem_map.mp h
  have hkeep := (List.mem_filter.mp he).2
  simp only [Bool.not_or, Bool.and_eq_true, Bool.not_not] at hkeep
  exact hkeep.1.1.2

theorem owner_pqCandidates {reading : Nat} {c : Coin} (h : c ∈ p.pqCandidates A reading) :
    (c.owner matches .pq _ _) = true := by
  obtain ⟨e, he, rfl⟩ := List.mem_map.mp h
  have hkeep := (List.mem_filter.mp he).2
  simp only [Bool.not_or, Bool.and_eq_true, Bool.not_not] at hkeep
  exact hkeep.1.1.2

/-- Coins at distinct outpoints come as distinct candidates. -/
theorem nodup_pickable (hw : p.wallet.Backed) (hapart : (p.wallet.coins.map Coin.at).Nodup)
    {cand : List Chosen} (h : p.pickable A = .ok cand) : (cand.map Chosen.outpoint).Nodup := by
  obtain ⟨plain, hplain, h⟩ := Result.bind_eq_ok.mp h
  obtain ⟨pq, hpq, h⟩ := Result.bind_eq_ok.mp h
  cases h
  obtain ⟨cs, hcs, hplain⟩ := Result.bind_eq_ok.mp hplain
  cases hplain
  have hfront := (@sublist_confirmedCoins A _ hw _ _ fun c hc ↦ (mem_candidates hc).1) hcs
  have hback := (@sublist_readCoins _ hw _ ((p.pqCandidates A 2).map fun c ↦ (c, ())) (by
    intro e he
    obtain ⟨c, hc, rfl⟩ := List.mem_map.mp he
    exact (mem_pqCandidates hc).1)) hpq
  rw [List.map_map] at hback
  have hcand : ((p.candidates A 1).map Coin.at).Sublist (p.wallet.coins.map Coin.at) :=
    ((List.filter_sublist.map _).trans (sublist_availableCoins p)).map _
  have hpqs : ((p.pqCandidates A 2).map Coin.at).Sublist (p.wallet.coins.map Coin.at) :=
    ((List.filter_sublist.map _).trans (sublist_availableCoins p)).map _
  have hsort : ((cs.insertionSort Chosen.before).map fun c ↦ shown c.outpoint).Perm
      (cs.map fun c ↦ shown c.outpoint) := (List.perm_insertionSort _ cs).map _
  apply nodup_of_shown
  rw [List.map_append, List.map_map, List.nodup_append]
  refine ⟨hsort.nodup_iff.mpr (hapart.sublist (hfront.trans hcand)),
    hapart.sublist (hback.trans hpqs), ?_⟩
  rintro a ha b hb rfl
  obtain ⟨c, hc, hat⟩ := List.mem_map.mp (hfront.subset (hsort.mem_iff.mp ha))
  obtain ⟨c', hc', hat'⟩ := List.mem_map.mp (hback.subset hb)
  -- a coin at one outpoint has one owner
  obtain rfl := List.inj_on_of_nodup_map hapart (mem_candidates hc).1 (mem_pqCandidates hc').1
    (hat.trans hat'.symm)
  have ht := owner_candidates hc
  have hpq' := owner_pqCandidates hc'
  cases hown : c.owner <;> simp [hown] at ht hpq'

end Candidates

/-! ## Keys for the change -/

section Keys

variable {env : Env}

/-- Only keys were added. -/
def KeysMoved (env : Env) (p p' : Purse) : Prop :=
  KeysOnly env p.wallet p'.wallet ∧ MoreKeys env p.wallet p'.wallet

instance : Proc.Path (KeysMoved env) where
  refl p := ⟨Proc.Path.refl p.wallet, Proc.Path.refl (R := MoreKeys env) p.wallet⟩
  trans h₁ h₂ := ⟨Proc.Path.trans h₁.1 h₂.1, Proc.Path.trans (R := MoreKeys env) h₁.2 h₂.2⟩

theorem keysMoved_issue {ε : Type} (f : Issued → Issued) : Moves (KeysMoved env)
    (onWallet (Proc.modify fun w ↦ { w with issued := f w.issued }) : Proc Purse ε Unit) :=
  fun p ↦ ⟨⟨rfl, rfl, rfl, rfl, rfl, rfl, rfl, rfl, rfl, fun h ↦ h⟩,
    Proc.Path.refl (R := KeyBook.Grows env.C) p.wallet.book⟩

theorem keysMoved_refreshKeys (fault : Option String) :
    Moves (KeysMoved env) (onWallet (refreshKeys env fault)) :=
  fun p ↦ ⟨keysOnly_refreshKeys fault p.wallet, moreKeys_refreshKeys fault p.wallet⟩

theorem keysMoved_newChange (fault : Option String) :
    Moves (KeysMoved env) (newChange env fault) := by
  refine Moves.bind Moves.get fun p ↦ Moves.bind
    (keysMoved_issue fun x ↦ { x with internal := p.wallet.issued.internal + 1 }) fun _ ↦ ?_
  refine Moves.bind (keysMoved_refreshKeys fault).mapErr fun _ ↦ Moves.bind Moves.get fun p ↦ ?_
  split
  · exact Moves.pure _
  · exact Moves.throw _

theorem keysMoved_newWalletKey (fault : Option String) :
    Moves (KeysMoved env) (newWalletKey env fault) := by
  refine Moves.bind Moves.get fun p ↦ Moves.bind
    (keysMoved_issue fun x ↦ { x with external := p.wallet.issued.external + 1 }) fun _ ↦ ?_
  refine Moves.bind (keysMoved_refreshKeys fault).mapErr fun _ ↦ Moves.bind Moves.get fun p ↦ ?_
  split
  · exact Moves.pure _
  · exact Moves.throw _

theorem keysMoved_newPq (fault : Option String) (scheme : UInt8) :
    Moves (KeysMoved env) (newPq env fault scheme) := by
  refine Moves.bind Moves.get fun p ↦ Moves.bind (keysMoved_issue fun x ↦
    { x with pq := x.pq.insert scheme.toNat (p.wallet.pqIssued scheme + 1) }) fun _ ↦ ?_
  refine Moves.bind (keysMoved_refreshKeys fault).mapErr fun _ ↦ Moves.bind Moves.get fun p ↦ ?_
  split
  · exact Moves.pure _
  · exact Moves.throw _

theorem keysMoved_drawHolder (fault : Option String) (change : Int) :
    Moves (KeysMoved env) (drawHolder env fault change) := by
  refine Moves.ite (Moves.bind (Moves.bind Moves.get fun p ↦ Moves.ite ?_ ?_) fun _ ↦ Moves.pure _)
    (Moves.pure _)
  · refine Moves.bind (keysMoved_newPq fault _) fun id ↦ ?_
    split
    · exact Moves.pure _
    · exact Moves.throw _
  · exact Moves.bind (keysMoved_newWalletKey fault) fun _ ↦ Moves.pure _

/-- A script that pays a key of the book. -/
theorem KeyBook.Hashed.owns {C : Crypto} {b : KeyBook} (hb : b.Hashed C) {k : TKey}
    (hk : k ∈ b.tkeys) : (b.ownsScript (p2pkhScript k.hash)).isSome :=
  KeyBook.isSome_ownsScript.mpr (.inl ⟨k.hash, p2pkhHash_p2pkhScript _, (hb k hk).2⟩)

theorem KeyBook.Sound.ownsPq {b : KeyBook} (hb : b.Sound) {scheme : UInt8} {index : Nat} {k : PqOwn}
    (hk : b.pqKey scheme index = some k) {s : Bytes} (hs : pqpkhScript k.id = some s) :
    (b.ownsScript s).isSome := by
  obtain ⟨e, he, rfl⟩ := List.mem_map.mp (List.mem_of_find?_eq_some hk)
  have hget := OrdMap.mem_entries.mp he
  have hid := hb.pq e.1 e.2 hget
  have hnone : p2pkhHash s = none := by
    unfold pqpkhScript at hs
    split at hs
    · cases hs
      rw [p2pkhHash, if_neg]
      rintro ⟨hlen, -⟩
      simp [pushData, opPushdata1] at hlen
    · cases hs
  refine KeyBook.isSome_ownsScript.mpr (.inr ⟨hnone, e.2.id, pqpkhOf_pqpkhScript hs, ?_⟩)
  rw [hid]
  exact Option.isSome_iff_exists.mpr ⟨e.2, hget⟩

theorem newChange_eq_ok {fault : Option String} {p p' : Purse} {s : Bytes}
    (h : newChange env fault p = (.ok s, p')) (hb : p'.wallet.book.Hashed env.C) :
    (p'.wallet.book.ownsScript s).isSome := by
  obtain ⟨_, _, ⟨⟩, h⟩ := bind_eq_ok.mp h
  obtain ⟨_, _, -, h⟩ := bind_eq_ok.mp h
  obtain ⟨_, _, -, h⟩ := bind_eq_ok.mp h
  obtain ⟨_, _, ⟨⟩, h⟩ := bind_eq_ok.mp h
  generalize hk : KeyBook.key _ internal _ = o at h
  cases o with
  | none => cases h
  | some k =>
    cases h
    exact hb.owns (List.mem_of_find?_eq_some hk)

/-- The holder of the YED change is the wallet's. -/
theorem drawHolder_eq_ok {fault : Option String} {change : Int} {p p' : Purse}
    {holder : Option (Bytes × Int)} (h : drawHolder env fault change p = (.ok holder, p'))
    (hsound : p'.wallet.book.Sound) (hb : p'.wallet.book.Hashed env.C) :
    change ≤ 0 ∧ holder = none ∨
      0 < change ∧ ∃ s, holder = some (s, change) ∧ (p'.wallet.book.ownsScript s).isSome := by
  unfold drawHolder at h
  split at h
  · rename_i hpos
    refine .inr ⟨hpos, ?_⟩
    obtain ⟨s, p₁, hfresh, h⟩ := bind_eq_ok.mp h
    cases h
    refine ⟨s, rfl, ?_⟩
    obtain ⟨_, _, ⟨⟩, hfresh⟩ := bind_eq_ok.mp hfresh
    split at hfresh
    · obtain ⟨id, p₂, hpq, hfresh⟩ := bind_eq_ok.mp hfresh
      generalize hscript : pqpkhScript id = o at hfresh
      cases o with
      | none => cases hfresh
      | some script =>
        cases hfresh
        obtain ⟨_, _, ⟨⟩, hpq⟩ := bind_eq_ok.mp hpq
        obtain ⟨_, _, -, hpq⟩ := bind_eq_ok.mp hpq
        obtain ⟨_, _, -, hpq⟩ := bind_eq_ok.mp hpq
        obtain ⟨_, _, ⟨⟩, hpq⟩ := bind_eq_ok.mp hpq
        generalize hk : KeyBook.pqKey _ schemeFnDsa _ = o at hpq
        cases o with
        | none => cases hpq
        | some k =>
          cases hpq
          exact hsound.ownsPq hk hscript
    · obtain ⟨pk, p₂, hkey, hfresh⟩ := bind_eq_ok.mp hfresh
      cases hfresh
      obtain ⟨_, _, ⟨⟩, hkey⟩ := bind_eq_ok.mp hkey
      obtain ⟨_, _, -, hkey⟩ := bind_eq_ok.mp hkey
      obtain ⟨_, _, -, hkey⟩ := bind_eq_ok.mp hkey
      obtain ⟨_, _, ⟨⟩, hkey⟩ := bind_eq_ok.mp hkey
      generalize hk : KeyBook.key _ external _ = o at hkey
      cases o with
      | none => cases hkey
      | some k =>
        cases hkey
        have hmem := List.mem_of_find?_eq_some hk
        rw [← (hb k hmem).1]
        exact hb.owns hmem
  · rename_i hle
    cases h
    exact .inl ⟨not_lt.mp hle, rfl⟩

end Keys

/-! ## Outputs and assignments -/

theorem toNat_asU32 {z : Int} (h : 0 ≤ z) (hlt : z < 2 ^ 32) : ((asU32 z).toNat : Int) = z := by
  have hmod : z % 2 ^ 32 = z := Int.emod_eq_of_lt h hlt
  rw [asU32, hmod, UInt32.toNat_ofNat', Nat.mod_eq_of_lt (by omega)]
  omega

theorem getElem?_assignmentsFrom {cents : List Int} {i : Nat} {a : Assignment}
    (h : (assignmentsFrom 0 cents)[i]? = some a) :
    ∃ c, cents[i]? = some c ∧ a = ⟨UInt8.ofNat i, asU32 c⟩ := by
  rw [assignmentsFrom, List.getElem?_map, List.getElem?_zipIdx, Option.map_map] at h
  obtain ⟨c, hc, rfl⟩ := Option.map_eq_some_iff.mp h
  exact ⟨c, hc, by simp⟩

theorem sum_assignmentsFrom {cents : List Int} (hcents : ∀ c ∈ cents, 0 ≤ c ∧ c < 2 ^ 32) (i : Nat) :
    ((assignmentsFrom i cents).map fun a ↦ (a.cents.toNat : Int)).sum = cents.sum := by
  induction cents generalizing i with
  | nil => rfl
  | cons c cs ih =>
    obtain ⟨hc, hcs⟩ := List.forall_mem_cons.mp hcents
    have hrest := ih hcs (i + 1)
    unfold assignmentsFrom at hrest ⊢
    rw [List.zipIdx_cons, List.map_cons, List.map_cons, List.sum_cons, List.sum_cons, hrest,
      toNat_asU32 hc.1 hc.2]

/-- Some outputs, by whether they are the wallet's. -/
theorem paid_filter_add (q : Out → Bool) (outs : List Out) :
    paid (outs.filter q) + paid (outs.filter fun o ↦ !q o) = paid outs := by
  induction outs with
  | nil => rfl
  | cons o outs ih =>
    rw [List.filter_cons, List.filter_cons, paid_cons]
    cases q o with
    | true => simp only [if_true, Bool.not_true, paid_cons]; simp; omega
    | false => simp only [Bool.not_false, if_true, paid_cons]; simp; omega

theorem paid_filter_le {outs : List Out} {v : Int} (hv : 0 ≤ v) (houts : ∀ o ∈ outs, o.value = v)
    (q : Out → Bool) : paid (outs.filter q) ≤ outs.length * v := by
  induction outs with
  | nil => simp
  | cons o outs ih =>
    obtain ⟨ho, houts⟩ := List.forall_mem_cons.mp houts
    have hrest := ih houts
    rw [List.filter_cons, List.length_cons, Nat.cast_succ, Int.add_mul, Int.one_mul]
    split
    · rw [paid_cons, ho]
      omega
    · omega

theorem checkRecipients_eq_ok {falcon : Bool} {recipients : List (Bytes × Int)} {needed : Int}
    (h : checkRecipients falcon recipients = .ok needed) :
    recipients ≠ [] ∧ recipients.length < maxAssignments ∧
      (∀ r ∈ recipients, minOutputCents ≤ r.2 ∧ r.2 ≤ maxSendCents) ∧
      needed = (recipients.map Prod.snd).sum := by
  unfold checkRecipients at h
  obtain ⟨hne, h⟩ := Result.guard_eq_ok.mp h
  obtain ⟨hlen, h⟩ := Result.guard_eq_ok.mp h
  obtain ⟨-, h⟩ := Result.guard_eq_ok.mp h
  obtain ⟨hcents, h⟩ := Result.guard_eq_ok.mp h
  cases h
  refine ⟨by simpa using hne, ?_, ?_, rfl⟩
  · rw [maxAssignments] at hlen ⊢
    omega
  · intro r hr
    by_contra hbad
    refine hcents (List.any_eq_true.mpr ⟨r, hr, ?_⟩)
    simp only [Bool.or_eq_true, decide_eq_true_eq]
    omega

/-! ## The send -/

/-- The transaction a sign request is about. -/
def SignAsk.tx (a : SignAsk) : Transaction :=
  newV4 (a.inputs.map fun i ↦ newTxIn i.1.outpoint) a.outs 0 a.expiryHeight

/-- What is asked of a send that reaches the signer, the coins apart. -/
structure SendPlan.Sound (A : Answers) (book : KeyBook) (info : YedInfo)
    (recipients : List (Bytes × Int)) (plan : SendPlan) : Prop where
  balance : worth (plan.ask.inputs.map Prod.fst) - paid plan.ask.outs = plan.fee
  network : info.networkFee (plan.ask.inputs.map fun i ↦ i.1.script) ≤ plan.fee
  conventional : ∃ c, plan.ask.tx.zip317ConventionalFee
    (plan.ask.inputs.map fun i ↦ scriptSigSizeBound i.1.script) = .ok c ∧ c ≤ plan.fee
  cents : (plan.ask.inputs.map fun i ↦ A.centsAt i.1.outpoint).sum =
    (plan.assignments.map fun a ↦ (a.cents.toNat : Int)).sum
  assigned : ∀ i a, plan.assignments[i]? = some a → ∃ o, plan.ask.outs[a.vout.toNat]? = some o ∧
    o.value = tokenZat ∧
    ((∃ r, recipients[i]? = some r ∧ o.scriptPubkey = r.1 ∧ (a.cents.toNat : Int) = r.2) ∨
      i = recipients.length ∧ (book.ownsScript o.scriptPubkey).isSome ∧
        (a.cents.toNat : Int) = plan.change)
  cap : worth (plan.ask.inputs.map Prod.fst) -
    paid (plan.ask.outs.filter fun o ↦ (book.ownsScript o.scriptPubkey).isSome) ≤ plan.ask.cap

section Send

variable {env : Env} {A : Answers} {p p' : Purse} {recipients : List (Bytes × Int)}

/-- The parts of a send. -/
structure Sends (env : Env) (A : Answers) (info : YedInfo) (faults : Option String × Option String)
    (recipients : List (Bytes × Int)) (p p' : Purse) (needed change : Int) (coins : List YedCoin)
    (holder : Option (Bytes × Int)) (d : Draft) : Prop where
  checked : checkRecipients p.falconNext recipients = .ok needed
  ranked : p.wallet.rankedCoins A = .ok coins
  selected : selectTokens coins needed = .ok (d.tokens, change)
  keys : ∃ p₁, drawHolder env faults.1 change p = (.ok holder, p₁) ∧
    newChange env faults.2 p₁ = (.ok d.changeScript, p')
  outs : ∃ data, encode (.transfer (draftOuts recipients holder).2) = some data ∧
    d.outs = (draftOuts recipients holder).1 ++ [⟨0, payloadScript data⟩]

theorem doSend_eq_ok {info : Except NodeError InfoAnswer} {faults : Option String × Option String}
    {r : Option SendPlan} (h : doSend env A info faults recipients p = (.ok r, p')) :
    ∃ info' needed change coins holder d branch, yedInfo info = .ok info' ∧
      Sends env A info' faults recipients p p' needed change coins holder d ∧
      (d.fund A p' info' = none ∧ r = none ∨
        ∃ floor f, d.fund A p' info' = some (.ok (floor, f)) ∧
          r = some ⟨⟨(d.inputs f.coins).map fun c ↦
              (c, (p'.wallet.keyOfScript c.script).getD .none), f.outs, d.expiryHeight, .yed,
            recipients.length * tokenZat + f.fee + 1, branch⟩, f.fee,
            (draftOuts recipients holder).2, change⟩) := by
  obtain ⟨info', hinfo, h⟩ := lift_bind_eq_ok.mp h
  obtain ⟨next, -, h⟩ := lift_bind_eq_ok.mp h
  obtain ⟨_, _, ⟨⟩, h⟩ := bind_eq_ok.mp h
  obtain ⟨needed, hchecked, h⟩ := lift_bind_eq_ok.mp h
  obtain ⟨coins, hranked, h⟩ := lift_bind_eq_ok.mp h
  obtain ⟨⟨tokens, change⟩, hselected, h⟩ := lift_bind_eq_ok.mp h
  obtain ⟨-, h⟩ := guard_eq_ok.mp h
  obtain ⟨holder, p₁, hholder, h⟩ := bind_eq_ok.mp h
  dsimp only at h
  generalize hdata : encode (.transfer (draftOuts recipients holder).2) = o at h
  cases o with
  | none => cases h
  | some data =>
    obtain ⟨changeScript, p₂, hchange, h⟩ := bind_eq_ok.mp h
    obtain ⟨_, _, ⟨⟩, h⟩ := bind_eq_ok.mp h
    generalize hfund : Draft.fund A _ p₂ info' = o at h
    have hsends : Sends env A info' faults recipients p p₂ needed change coins holder
        ⟨tokens, (draftOuts recipients holder).1 ++ [⟨0, payloadScript data⟩], changeScript,
          asU32 (info'.indexHeight - info'.refLag + info'.refWindow)⟩ :=
      ⟨hchecked, hranked, hselected, ⟨p₁, hholder, hchange⟩, data, hdata, rfl⟩
    cases o with
    | none =>
      cases h
      exact ⟨info', needed, change, coins, holder, _, next.branch, hinfo, hsends, .inl ⟨hfund, rfl⟩⟩
    | some x =>
      cases x with
      | error e => cases h
      | ok x =>
        obtain ⟨floor, f⟩ := x
        cases h
        exact ⟨info', needed, change, coins, holder, _, next.branch, hinfo, hsends,
          .inr ⟨floor, f, hfund, rfl⟩⟩

theorem Wallet.Ready.moved (hw : p.wallet.Ready env) (h : KeysMoved env p p') :
    p'.wallet.Ready env := hw.more h.1 h.2

theorem sum_le_of_forall_le {l : List Int} {b : Int} (h : ∀ x ∈ l, x ≤ b) : l.sum ≤ l.length * b := by
  induction l with
  | nil => simp
  | cons x l ih =>
    obtain ⟨hx, hl⟩ := List.forall_mem_cons.mp h
    rw [List.sum_cons, List.length_cons, Nat.cast_succ, Int.add_mul, Int.one_mul]
    have := ih hl
    omega

namespace Sends

variable {info : YedInfo} {faults : Option String × Option String} {needed change : Int}
  {coins : List YedCoin} {holder : Option (Bytes × Int)} {d : Draft}

theorem moved (h : Sends env A info faults recipients p p' needed change coins holder d) :
    KeysMoved env p p' := by
  obtain ⟨p₁, hholder, hchange⟩ := h.keys
  have h₁ : KeysMoved env p (drawHolder env faults.1 change p).2 := keysMoved_drawHolder _ _ _
  have h₂ : KeysMoved env p₁ (newChange env faults.2 p₁).2 := keysMoved_newChange _ _
  rw [hholder] at h₁
  rw [hchange] at h₂
  exact Proc.Path.trans h₁ h₂

theorem needed_pos (h : Sends env A info faults recipients p p' needed change coins holder d) :
    0 < needed := by
  obtain ⟨hne, -, hcents, rfl⟩ := checkRecipients_eq_ok h.checked
  obtain ⟨r, rs, rfl⟩ := List.exists_cons_of_ne_nil hne
  obtain ⟨hr, hrs⟩ := List.forall_mem_cons.mp hcents
  have hnonneg : 0 ≤ (rs.map Prod.snd).sum := by
    refine List.sum_nonneg fun x hx ↦ ?_
    obtain ⟨r', hr', rfl⟩ := List.mem_map.mp hx
    exact (Int.natCast_nonneg _).trans (hrs r' hr').1
  rw [List.map_cons, List.sum_cons]
  rw [minOutputCents] at hr
  omega

/-- The change, and the tokens that make it. -/
theorem tokens (hw : p.wallet.Ready env) (hA : A.Steady p.wallet)
    (h : Sends env A info faults recipients p p' needed change coins holder d) :
    (∀ y ∈ d.tokens, Listed A p.wallet y) ∧
      (p.wallet.ListsOnce A → (d.tokens.map YedCoin.outpoint).Nodup) ∧
      A.tokensFault 0 0 = none ∧ (d.tokens.map YedCoin.cents).sum = needed + change ∧
      0 ≤ change ∧ change < 2 ^ 32 := by
  obtain ⟨hlisted, honce, hfault⟩ := rankedCoins_eq_ok hw.backed hA h.ranked
  obtain ⟨hsub, hlen, hsum, hnonneg⟩ := selectTokens_eq_ok h.needed_pos h.selected
  have hpos := h.needed_pos
  have htokens : ∀ y ∈ d.tokens, Listed A p.wallet y := fun y hy ↦ hlisted y (hsub.subset hy)
  refine ⟨htokens, fun hl ↦ (honce hl).sublist (hsub.map _), hfault ?_, hsum, hnonneg, ?_⟩
  · rintro rfl
    rw [List.sublist_nil.mp hsub, List.map_nil, List.sum_nil] at hsum
    omega
  · have hsmall : (d.tokens.map YedCoin.cents).sum ≤ d.tokens.length * maxSendCents := by
      have := sum_le_of_forall_le (l := d.tokens.map YedCoin.cents) (b := maxSendCents) (by
        intro x hx
        obtain ⟨y, hy, rfl⟩ := List.mem_map.mp hx
        obtain ⟨t, ht, -, -, hcents⟩ := (htokens y hy).token
        rw [hcents]
        exact hA.small t ht)
      rwa [List.length_map] at this
    rw [maxSendCents] at hsmall
    rw [maxInputs] at hlen
    omega

/-- The holder of the change is the wallet's, and is there when there is change. -/
theorem holder_cases (hw : p.wallet.Ready env) (hA : A.Steady p.wallet)
    (h : Sends env A info faults recipients p p' needed change coins holder d) :
    change = 0 ∧ holder = none ∨
      ∃ s, holder = some (s, change) ∧ (p'.wallet.book.ownsScript s).isSome := by
  have hnonneg := (h.tokens hw hA).2.2.2.2.1
  obtain ⟨p₁, hholder, hchange⟩ := h.keys
  have h₁ : KeysMoved env p (drawHolder env faults.1 change p).2 := keysMoved_drawHolder _ _ _
  have h₂ : KeysMoved env p₁ (newChange env faults.2 p₁).2 := keysMoved_newChange _ _
  rw [hholder] at h₁
  rw [hchange] at h₂
  have hw₁ := hw.moved h₁
  rcases drawHolder_eq_ok hholder hw₁.backed.book hw₁.hashed with ⟨hle, hnone⟩ | ⟨-, s, hs, howns⟩
  · exact .inl ⟨le_antisymm hle hnonneg, hnone⟩
  · exact .inr ⟨s, hs, h₂.2.ownsScript howns⟩

theorem owns_changeScript (hw : p.wallet.Ready env)
    (h : Sends env A info faults recipients p p' needed change coins holder d) :
    (p'.wallet.book.ownsScript d.changeScript).isSome := by
  obtain ⟨p₁, -, hchange⟩ := h.keys
  exact newChange_eq_ok hchange (hw.moved h.moved).hashed

/-- A coin that was picked is no token. -/
theorem picked_free (hw : p.wallet.Ready env) (hA : A.Steady p.wallet)
    (h : Sends env A info faults recipients p p' needed change coins holder d) {floor : Int}
    {f : Funded} (hf : d.Turned A p' info floor f) {ch : Chosen} (hch : ch ∈ f.coins)
    {t : YedToken} (ht : t ∈ A.tokens) : t.at ≠ shown ch.outpoint := by
  have hw' := hw.moved h.moved
  have hnames : A.Names p'.wallet := by
    intro t ht c hc
    rw [h.moved.1.coins] at hc
    exact hA.names t ht c hc
  have hanswered (r : Nat) : p'.wallet.Answered A r := fun i _ ↦
    (hA.fixed r i).trans (h.tokens hw hA).2.2.1
  rcases hf.choice with hnil | ⟨cand, hcand, order, horder, hfront⟩
  · rw [hnil] at hch
    cases hch
  · have hmem := (perm_of_mem_pickOrders horder).mem_iff.mp (hfront.subset hch)
    obtain ⟨r, -, c, hc, hread, hfree⟩ := free_pickable hcand hmem
    intro hat
    exact hfree (hw'.backed.mem_yedReserved hnames (hanswered r) hc ht
      (hat.trans (hw'.backed.at_eq hc hread).symm))

/-- No coin twice, where the listing names no token twice. -/
theorem nodup_inputs (hw : p.wallet.Ready env) (hA : A.Steady p.wallet)
    (hl : p.wallet.ListsOnce A)
    (h : Sends env A info faults recipients p p' needed change coins holder d) {floor : Int}
    {f : Funded} (hf : d.Turned A p' info floor f) :
    ((d.inputs f.coins).map Chosen.outpoint).Nodup := by
  have hw' := hw.moved h.moved
  obtain ⟨hlisted, honce, -⟩ := h.tokens hw hA
  have hinputs : (d.inputs f.coins).map Chosen.outpoint =
      d.tokens.map YedCoin.outpoint ++ f.coins.map Chosen.outpoint := by
    simp [Draft.inputs, List.map_map, Function.comp_def]
  rw [hinputs, List.nodup_append]
  refine ⟨honce hl, ?_, ?_⟩
  · rcases hf.choice with hnil | ⟨cand, hcand, order, horder, hfront⟩
    · rw [hnil]
      exact List.nodup_nil
    · have hcands := nodup_pickable hw'.backed hw'.apart hcand
      have horders := ((perm_of_mem_pickOrders horder).map Chosen.outpoint).nodup_iff.mpr hcands
      exact horders.sublist (hfront.sublist.map _)
  · rintro op hop op' hop' rfl
    obtain ⟨y, hy, rfl⟩ := List.mem_map.mp hop
    obtain ⟨ch, hch, heq⟩ := List.mem_map.mp hop'
    obtain ⟨t, ht, -, hat, -⟩ := (hlisted y hy).token
    exact h.picked_free hw hA hf hch ht (by rw [heq]; exact hat)

/-- The token inputs are worth the assignments. -/
theorem cents (hw : p.wallet.Ready env) (hA : A.Steady p.wallet)
    (h : Sends env A info faults recipients p p' needed change coins holder d) {floor : Int}
    {f : Funded} (hf : d.Turned A p' info floor f) :
    ((d.inputs f.coins).map fun c ↦ A.centsAt c.outpoint).sum =
      ((draftOuts recipients holder).2.map fun a ↦ (a.cents.toNat : Int)).sum := by
  obtain ⟨hlisted, -, -, hsum, hnonneg, hlt⟩ := h.tokens hw hA
  obtain ⟨-, -, hcents, hneeded⟩ := checkRecipients_eq_ok h.checked
  have htokens : (d.tokens.map fun y ↦ A.centsAt y.outpoint) = d.tokens.map YedCoin.cents := by
    refine List.map_congr_left fun y hy ↦ ?_
    obtain ⟨t, ht, -, hat, hy'⟩ := (hlisted y hy).token
    rw [centsAt_eq hA.apart ht hat, hy']
  have hyec : ∀ x ∈ f.coins.map (fun c ↦ A.centsAt c.outpoint), x = 0 := by
    intro x hx
    obtain ⟨ch, hch, rfl⟩ := List.mem_map.mp hx
    have hnone : A.tokens.find? (fun t ↦ t.at = shown ch.outpoint) = none :=
      List.find?_eq_none.mpr fun t ht hat ↦ h.picked_free hw hA hf hch ht (of_decide_eq_true hat)
    rw [Answers.centsAt, hnone]
    rfl
  have hinputs : ((d.inputs f.coins).map fun c ↦ A.centsAt c.outpoint).sum =
      (d.tokens.map YedCoin.cents).sum := by
    rw [Draft.inputs, List.map_append, List.map_map, List.sum_append, List.sum_eq_zero hyec, add_zero,
      ← htokens]
    rfl
  have hall : ∀ c ∈ (recipients ++ holder.toList).map Prod.snd, 0 ≤ c ∧ c < 2 ^ 32 := by
    intro c hc
    obtain ⟨r, hr, rfl⟩ := List.mem_map.mp hc
    rcases List.mem_append.mp hr with hr | hr
    · have := hcents r hr
      rw [minOutputCents, maxSendCents] at this
      omega
    · rcases h.holder_cases hw hA with ⟨-, hnone⟩ | ⟨s, hsome, -⟩
      · rw [hnone] at hr
        cases hr
      · rw [hsome] at hr
        obtain rfl := List.mem_singleton.mp hr
        exact ⟨hnonneg, hlt⟩
  rw [hinputs, hsum, draftOuts, sum_assignmentsFrom hall, List.map_append, List.sum_append, hneeded]
  rcases h.holder_cases hw hA with ⟨hzero, hnone⟩ | ⟨s, hsome, -⟩
  · rw [hnone, hzero]
    rfl
  · rw [hsome]
    simp

/-- Every assignment is for the token output of its recipient or of the change. -/
theorem assigned (hw : p.wallet.Ready env) (hA : A.Steady p.wallet)
    (h : Sends env A info faults recipients p p' needed change coins holder d) {floor : Int}
    {f : Funded} (hf : d.Turned A p' info floor f) {i : Nat} {a : Assignment}
    (ha : (draftOuts recipients holder).2[i]? = some a) :
    ∃ o, f.outs[a.vout.toNat]? = some o ∧ o.value = tokenZat ∧
      ((∃ r, recipients[i]? = some r ∧ o.scriptPubkey = r.1 ∧ (a.cents.toNat : Int) = r.2) ∨
        i = recipients.length ∧ (p'.wallet.book.ownsScript o.scriptPubkey).isSome ∧
          (a.cents.toNat : Int) = change) := by
  obtain ⟨-, hlen, hcents, -⟩ := checkRecipients_eq_ok h.checked
  obtain ⟨-, -, -, -, hnonneg, hlt⟩ := h.tokens hw hA
  obtain ⟨c, hc, rfl⟩ := getElem?_assignmentsFrom ha
  rw [List.getElem?_map] at hc
  obtain ⟨t, ht, rfl⟩ := Option.map_eq_some_iff.mp hc
  have hout : f.outs[i]? = some ⟨tokenZat, t.1⟩ := by
    obtain ⟨data, -, hdata⟩ := h.outs
    have hdraft : d.outs[i]? = some ⟨tokenZat, t.1⟩ := by
      rw [hdata, List.getElem?_append_left]
      · rw [draftOuts, List.getElem?_map, ht]
        rfl
      · simpa [draftOuts] using (List.getElem?_eq_some_iff.mp ht).1
    rcases hf.outs with houts | ⟨v, -, houts⟩
    · rw [houts]
      exact hdraft
    · rw [houts, List.getElem?_append_left (List.getElem?_eq_some_iff.mp hdraft).1]
      exact hdraft
  have hi : i ≤ recipients.length := by
    have hbound := (List.getElem?_eq_some_iff.mp ht).1
    have hholder : holder.toList.length ≤ 1 := by cases holder <;> simp
    rw [List.length_append] at hbound
    omega
  have hvout : (UInt8.ofNat i).toNat = i := by
    rw [maxAssignments] at hlen
    refine UInt8.toNat_ofNat_of_lt' ?_
    rw [UInt8.size]
    omega
  refine ⟨_, by rw [hvout]; exact hout, rfl, ?_⟩
  rcases Nat.lt_or_eq_of_le hi with hi | rfl
  · rw [List.getElem?_append_left hi] at ht
    have hrange := hcents t (List.mem_of_getElem? ht)
    rw [minOutputCents, maxSendCents] at hrange
    exact .inl ⟨t, ht, rfl, toNat_asU32 (by omega) (by omega)⟩
  · rw [List.getElem?_append_right (le_refl _), Nat.sub_self] at ht
    rcases h.holder_cases hw hA with ⟨-, hnone⟩ | ⟨s, hsome, howns⟩
    · rw [hnone] at ht
      cases ht
    · rw [hsome] at ht
      cases ht
      exact .inr ⟨rfl, howns, toNat_asU32 hnonneg hlt⟩

/-- What does not go to the wallet goes to the recipients, a token output for each. -/
theorem paid_others (hw : p.wallet.Ready env) (hA : A.Steady p.wallet)
    (h : Sends env A info faults recipients p p' needed change coins holder d) {floor : Int}
    {f : Funded} (hf : d.Turned A p' info floor f) :
    paid (f.outs.filter fun o ↦ !(p'.wallet.book.ownsScript o.scriptPubkey).isSome) ≤
      recipients.length * tokenZat := by
  obtain ⟨data, -, hdata⟩ := h.outs
  have htoken : ∀ o ∈ recipients.map fun t ↦ (⟨tokenZat, t.1⟩ : Out), o.value = tokenZat := by
    intro o ho
    obtain ⟨t, -, rfl⟩ := List.mem_map.mp ho
    rfl
  have hrecipients := paid_filter_le (by decide) htoken
    fun o ↦ !(p'.wallet.book.ownsScript o.scriptPubkey).isSome
  rw [List.length_map] at hrecipients
  have hholder : (holder.toList.map fun t ↦ (⟨tokenZat, t.1⟩ : Out)).filter
      (fun o ↦ !(p'.wallet.book.ownsScript o.scriptPubkey).isSome) = [] := by
    rcases h.holder_cases hw hA with ⟨-, hnone⟩ | ⟨s, hsome, howns⟩
    · rw [hnone]
      rfl
    · rw [hsome]
      refine List.filter_eq_nil_iff.mpr fun o ho ↦ ?_
      obtain rfl := List.mem_singleton.mp ho
      rw [howns]
      decide
  have hpayload : paid ([(⟨0, payloadScript data⟩ : Out)].filter
      fun o ↦ !(p'.wallet.book.ownsScript o.scriptPubkey).isSome) = 0 := by
    rw [List.filter_singleton]
    cases !(p'.wallet.book.ownsScript (payloadScript data)).isSome <;> rfl
  have hdraft : paid (d.outs.filter fun o ↦ !(p'.wallet.book.ownsScript o.scriptPubkey).isSome) ≤
      recipients.length * tokenZat := by
    rw [hdata, draftOuts, List.map_append, List.filter_append, List.filter_append, paid_append,
      paid_append, hholder, hpayload]
    simpa using hrecipients
  rcases hf.outs with houts | ⟨v, -, houts⟩
  · rw [houts]
    exact hdraft
  · have hown := h.owns_changeScript hw
    have hchange : [(⟨v, d.changeScript⟩ : Out)].filter
        (fun o ↦ !(p'.wallet.book.ownsScript o.scriptPubkey).isSome) = [] := by
      rw [List.filter_singleton, hown]
      rfl
    rw [houts, List.filter_append, paid_append, hchange, paid_nil, add_zero]
    exact hdraft

end Sends

/-- **A send is sound.**  The funding loop of `do_send` ends.  What is handed to the signer pays the
fee it settled on, which covers the network fee and the conventional fee; the token inputs are worth
the assignments, which are for token outputs; and the cap is no less than what leaves the wallet.
No coin is an input twice, if no token's script is asked about in two chunks of the listing. -/
theorem doSend_sound {info : Except NodeError InfoAnswer} {faults : Option String × Option String}
    (hw : p.wallet.Ready env) (hA : A.Steady p.wallet) (hl : p.wallet.ListsOnce A) :
    (∀ p', doSend env A info faults recipients p ≠ (.ok none, p')) ∧
      ∀ plan p', doSend env A info faults recipients p = (.ok (some plan), p') →
        ∃ info', yedInfo info = .ok info' ∧
          plan.Sound A p'.wallet.book info' recipients ∧
          (plan.ask.inputs.map fun i ↦ i.1.outpoint).Nodup := by
  constructor
  · intro p' h
    obtain ⟨info', _, _, _, _, d, _, -, -, ⟨hnone, -⟩ | ⟨_, _, -, hsome⟩⟩ := doSend_eq_ok h
    · exact d.fund_ne_none A p' info' hnone
    · cases hsome
  · intro plan p' h
    obtain ⟨info', needed, change, coins, holder, d, branch, hinfo, hsends, ⟨-, hnone⟩ |
      ⟨floor, f, hfund, hplan⟩⟩ := doSend_eq_ok h
    · cases hnone
    obtain rfl := Option.some.inj hplan
    obtain ⟨hf, hconv⟩ := Draft.fund_eq_ok hfund
    have hfst : ((d.inputs f.coins).map fun c ↦
        (c, (p'.wallet.keyOfScript c.script).getD .none)).map Prod.fst = d.inputs f.coins := by
      simp [List.map_map, Function.comp_def]
    refine ⟨info', hinfo, ⟨?_, ?_, ?_, ?_, ?_, ?_⟩, ?_⟩
    · rw [hfst]
      exact hf.balance
    · rw [List.map_map]
      exact hf.network
    · have hok : (d.tx f.coins f.outs).zip317ConventionalFee (d.sizes f.coins) =
          .ok (d.conventional f.coins f.outs) := by
        unfold Draft.conventional Transaction.zip317ConventionalFee
        rw [if_neg (by simp [Draft.tx, Draft.sizes, newV4])]
        rfl
      refine ⟨_, ?_, hconv⟩
      rw [SignAsk.tx, List.map_map, List.map_map]
      exact hok
    · rw [List.map_map]
      exact hsends.cents hw hA hf
    · exact fun i a ha ↦ hsends.assigned hw hA hf ha
    · have hsplit := paid_filter_add
        (fun o ↦ (p'.wallet.book.ownsScript o.scriptPubkey).isSome) f.outs
      have hothers := hsends.paid_others hw hA hf
      have hbalance := hf.balance
      rw [hfst]
      dsimp only
      omega
    · rw [List.map_map]
      exact hsends.nodup_inputs hw hA hl hf

end Send

/-! ### A key that is derived and imported -/

/-- The first bytes, filled up with zeros. -/
def frontOf (n : Nat) (b : Bytes) : Arr n := ⟨(b ++ List.replicate n 0).take n, by simp⟩

/-- Hashes that keep the front of what they hash. -/
def listCrypto : Crypto :=
  { Crypto.blank with sha256 := frontOf 32, ripemd160 := frontOf 20 }

/-- The key of a chain at an index. -/
def listKey (chain i : Nat) : Arr 33 :=
  ⟨UInt8.ofNat (9 - 2 * (i / 100) - chain) :: UInt8.ofNat (255 - i) :: List.replicate 31 0, rfl⟩

@[inherit_doc listKey]
def listEnv : Env := { noteEnv with C := listCrypto, child := fun chain i ↦ .ok (listKey chain i) }

/-- The script of a receive key. -/
def listScript (i : Nat) : Bytes := p2pkhScript (listCrypto.hash160 (listKey 0 i).toList)

/-- A hundred receive keys, and some that were imported. -/
def listBook (imports : List String) : KeyBook :=
  (addImportedKeys listEnv 0 imports
    (KeyBook.extend listCrypto listEnv.child external 100 .empty).2).2

/-- A wallet at a tip in which each of the first `n` receive keys has a coin, with the value of the
first. -/
def listWalletOf (tip : Option Tip) (zat : Int64) (n : Nat) (imports : List String) : Wallet :=
  { newWallet with
    bundle := { newWallet.bundle with imported := imports }
    issued := ⟨n, 0, .empty⟩
    tip
    book := listBook imports
    coins := (List.range n).map fun i ↦
      ⟨txidHex payTxid, UInt32.ofNat i, if i = 0 then zat else 100000, listScript i, .t external i,
        some 1, false, false⟩ }

@[inherit_doc listWalletOf]
def listWallet (n : Nat) (imports : List String) : Wallet := listWalletOf none 100000 n imports

@[inherit_doc listWalletOf]
def listPurse (n : Nat) (imports : List String) : Purse := ⟨listWallet n imports, .empty, false⟩

/-- The node lists the first coin as a token of five dollars. -/
def listAnswers : Answers := { payAnswers none with tokens := [⟨txidHex payTxid, 0, 500, listScript 0⟩] }

/-- What `yed_getinfo` says at height 1. -/
def listInfo : InfoAnswer := ⟨none, none, some 1, none, none, none, none, none, none, none⟩

/-- A send of `cents` to another wallet. -/
def listSend (n : Nat) (imports : List String) (cents : Int) :
    Except RpcError (Option SendPlan) × Purse :=
  doSend listEnv listAnswers (.ok listInfo) (none, none) [(listScript 200, cents)]
    (listPurse n imports)

/-- A key that is derived is in the book afterwards. -/
theorem isSome_byHash_extend_go {C : Crypto} {child : Nat → Nat → Except String (Arr 33)}
    {chain i : Nat} {pk : Arr 33} {is : List Nat} (b : KeyBook)
    (hchild : ∀ j, ∃ pk, child chain j = .ok pk) (hpk : child chain i = .ok pk)
    (h : (b.byHash (C.hash160 pk.toList)).isSome ∨ i ∈ is) :
    ((KeyBook.extend.go C child chain is b).2.byHash (C.hash160 pk.toList)).isSome := by
  induction is generalizing b with
  | nil => exact h.resolve_right List.not_mem_nil
  | cons j is ih =>
    obtain ⟨pk', hpk'⟩ := hchild j
    simp only [KeyBook.extend.go, hpk']
    have hgrows : b.Grows C (b.push ⟨chain, j, pk', C.hash160 pk'.toList⟩) := .push b rfl
    refine ih _ ?_
    rcases h with h | h
    · exact .inl (hgrows.hash _ h)
    · rcases List.mem_cons.mp h with rfl | h
      · obtain rfl := Except.ok.inj (hpk.symm.trans hpk')
        left
        unfold KeyBook.byHash KeyBook.push
        rw [OrdMap.get?_insert, if_pos rfl]
        rfl
      · exact .inr h

theorem listWalletOf_ready (tip : Option Tip) (zat : Int64) {n : Nat} (hn : n ≤ 100)
    (imports : List String) : (listWalletOf tip zat n imports).Ready listEnv := by
  have hempty : KeyBook.empty.Hashed listEnv.C := nofun
  have hgrows : KeyBook.Grows listEnv.C .empty (listBook imports) :=
    Proc.Path.trans (KeyBook.Grows.extend _ _ _ _ _) (@grows_addImportedKeys listEnv _ _ _)
  have hderived : ∀ i < 100, ((KeyBook.extend listCrypto listEnv.child external 100
      .empty).2.ownsScript (listScript i)).isSome := by
    intro i hi
    refine KeyBook.isSome_ownsScript.mpr (.inl ⟨_, p2pkhHash_p2pkhScript _, ?_⟩)
    exact isSome_byHash_extend_go _ (fun _ ↦ ⟨_, rfl⟩) rfl
      (.inr (List.mem_range'_1.mpr ⟨Nat.zero_le _, by simpa [KeyBook.empty] using hi⟩))
  have howned : ∀ i < n, ((listBook imports).ownsScript (listScript i)).isSome := fun i hi ↦
    (@grows_addImportedKeys listEnv imports 0 _).ownsScript (hderived i (by omega))
  refine ⟨⟨hgrows.sound .empty, ?_, ?_, nofun, nofun⟩, hgrows.hashed hempty, ?_⟩
  · intro c hc
    obtain ⟨i, hi, rfl⟩ := List.mem_map.mp hc
    exact howned i (List.mem_range.mp hi)
  · intro c hc
    obtain ⟨i, -, rfl⟩ := List.mem_map.mp hc
    exact ⟨payTxid, rfl⟩
  · have hat : (listWalletOf tip zat n imports).coins.map Coin.at =
        (List.range n).map fun i ↦ (txidHex payTxid, UInt32.ofNat i) := List.map_map
    rw [hat]
    refine List.Nodup.map_on (fun i hi j hj h ↦ ?_) List.nodup_range
    have hij := congrArg UInt32.toNat (Prod.mk.inj h).2
    rw [List.mem_range] at hi hj
    rwa [UInt32.toNat_ofNat_of_lt' (by rw [UInt32.size]; omega),
      UInt32.toNat_ofNat_of_lt' (by rw [UInt32.size]; omega)] at hij

theorem listWallet_ready {n : Nat} (hn : n ≤ 100) (imports : List String) :
    (listWallet n imports).Ready listEnv := listWalletOf_ready none 100000 hn imports

/-- The token state is the node's own, whatever it says of the outputs. -/
theorem listAnswers_steady (txout : OutPoint → Except NodeError (Option TxOutAnswer)) (tip : Option Tip)
    (zat : Int64) {n : Nat} (hn : n ≤ 100) (imports : List String) :
    Answers.Steady { listAnswers with txout } (listWalletOf tip zat n imports) where
  fixed _ _ := rfl
  apart := List.nodup_singleton _
  names := by
    intro t ht c hc hat
    obtain rfl := List.mem_singleton.mp ht
    obtain ⟨i, hi, rfl⟩ := List.mem_map.mp hc
    have hi0 := congrArg UInt32.toNat (Prod.mk.inj hat).2
    rw [List.mem_range] at hi
    dsimp only at hi0
    rw [UInt32.toNat_ofNat_of_lt' (by rw [UInt32.size]; omega)] at hi0
    rw [← hi0]
    rfl
  small := by
    intro t ht
    obtain rfl := List.mem_singleton.mp ht
    decide

/-- A hundred used keys, the first of them imported too: its token is listed in both calls, and is
spent twice in one transaction. -/
theorem not_nodup_listedTwice :
    let imports := [Hex.encode (listKey 0 0).toList]
    (listPurse 100 imports).wallet.Ready listEnv ∧
      listAnswers.Steady (listPurse 100 imports).wallet ∧
      (listSend 100 imports 1000).1.map (Option.map fun plan ↦
        plan.ask.inputs.map fun i ↦ i.1.outpoint) =
        .ok (some [⟨payTxid, 0⟩, ⟨payTxid, 0⟩]) :=
  ⟨listWallet_ready (le_refl _) _, listAnswers_steady _ _ _ (le_refl _) _, by decide +kernel⟩

/-- The node confirms both coins of a wallet whose first coin is a token output. -/
def confirmingAnswers : Answers :=
  { listAnswers with
    txout := fun o ↦ .ok (some ⟨some (if o.n = 0 then 10000 else 100000), .ok (listScript o.n.toNat), 1,
      "paid", false⟩) }

@[inherit_doc confirmingAnswers]
def confirmedWallet : Wallet := listWalletOf (some ⟨1, "paid"⟩) 10000 2 []

/-- A send of two dollars: the change is a token too, and the second coin pays for both and the fee. -/
def confirmedSend : Except RpcError (Option SendPlan) × Purse :=
  doSend listEnv confirmingAnswers (.ok listInfo) (none, none) [(listScript 200, 200)]
    ⟨confirmedWallet, .empty, false⟩

theorem doSend_sound_small : ∃ plan p', confirmedSend = (.ok (some plan), p') ∧
    plan.change = 300 ∧ plan.ask.inputs.length = 2 ∧
    (plan.ask.inputs.map fun i ↦ i.1.outpoint).Nodup := by
  have hrun : (confirmedSend.1.toOption.join.any fun plan ↦
      plan.change = 300 && plan.ask.inputs.length = 2) = true := by decide +kernel
  have hlists : confirmedWallet.ListsOnce confirmingAnswers :=
    Wallet.listsOnce_of_length_le (by decide +kernel)
  have hsound := @doSend_sound listEnv confirmingAnswers ⟨confirmedWallet, .empty, false⟩
    [(listScript 200, 200)] (.ok listInfo) (none, none) (listWalletOf_ready _ _ (by decide) [])
    (listAnswers_steady _ _ _ (by decide) []) hlists
  generalize hx : confirmedSend = x at hrun
  obtain ⟨r, p'⟩ := x
  cases r with
  | error e => cases hrun
  | ok o =>
    cases o with
    | none => cases hrun
    | some plan =>
      obtain ⟨info', -, -, hnodup⟩ := hsound.2 plan p' hx
      have hparts : plan.change = 300 ∧ plan.ask.inputs.length = 2 := by
        simpa [Except.toOption] using hrun
      exact ⟨plan, p', rfl, hparts.1, hparts.2, hnodup⟩

end Yew.Daemon
