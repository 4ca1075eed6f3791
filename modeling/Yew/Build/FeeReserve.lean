import Yew.Build.Fees
import Yew.Util.Sorted

/-!
# Plain coins and the fee reserve

Plain coins are taken in one order, whatever order the wallet lists them in.  Of these some are kept
back for the fees of YED operations: the smallest, until they cover a target, and none that is larger
than the whole of it.

The order is the tie-break of the source's sort: by value, then by outpoint.  The statement that the
marks do not depend on the listing is a fact about sorted lists, taken from `Yew.Util.Sorted`.

## Source

* `core/src/coins.rs`: `apply_fee_reserve`
* `core/src/params.rs`: `reserve_zat`
-/

namespace Yew.Build

open Tx Coins Yellowback Sorted

/-! ## Orders that tell coins apart -/

theorem eq_of_outpointOrder {a b : OutPoint} (h : outpointOrder a b = .eq) : a = b := by
  obtain ⟨htxid, hn⟩ := Ordering.then_eq_eq.mp h
  cases a
  cases b
  rw [OutPoint.mk.injEq]
  exact ⟨List.Vector.toList_injective (Std.LawfulEqOrd.compare_eq_iff_eq.mp htxid),
    Std.LawfulEqOrd.compare_eq_iff_eq.mp hn⟩

/-- By value, then by outpoint. -/
def plainOrder (a b : Utxo) : Ordering :=
  (compare a.value b.value).then (outpointOrder a.outpoint b.outpoint)

instance instTransCmpPlainOrder : Std.TransCmp plainOrder :=
  inferInstanceAs (Std.TransCmp (compareLex (compareOn Utxo.value)
    (compareLex (compareOn fun u : Utxo ↦ u.outpoint.txid.toList)
      (compareOn fun u : Utxo ↦ u.outpoint.n))))

instance instTransCmpPoolOrder : Std.TransCmp poolOrder :=
  inferInstanceAs (Std.TransCmp (compareLex
    (compareOn fun u : Utxo ↦ decide (u.utxoClass ≠ .feeReserve)) plainOrder))

theorem outpoint_eq_of_plainOrder {a b : Utxo} (h : plainOrder a b = .eq) :
    a.outpoint = b.outpoint :=
  eq_of_outpointOrder (Ordering.then_eq_eq.mp h).2

theorem outpoint_eq_of_poolOrder {a b : Utxo} (h : poolOrder a b = .eq) :
    a.outpoint = b.outpoint :=
  outpoint_eq_of_plainOrder (Ordering.then_eq_eq.mp h).2

/-- Coins at different outpoints. -/
def Distinct (us : List Utxo) : Prop := (us.map Utxo.outpoint).Nodup

namespace Distinct

variable {us us' : List Utxo}

theorem nodup (h : Distinct us) : us.Nodup := List.Nodup.of_map _ h

theorem inj (h : Distinct us) : ∀ a ∈ us, ∀ b ∈ us, a.outpoint = b.outpoint → a = b :=
  fun _ ha _ hb heq ↦ List.inj_on_of_nodup_map h ha hb heq

theorem filter (h : Distinct us) (p : Utxo → Bool) : Distinct (us.filter p) :=
  h.sublist (List.filter_sublist.map _)

theorem perm (h : Distinct us) (hperm : us'.Perm us) : Distinct us' :=
  (hperm.map _).nodup_iff.mpr h

end Distinct

/-! ## Selection -/

/-- The coins `select_yec` may take. -/
def eligible (us : List Utxo) (useReserve : Bool) : List Utxo :=
  us.filter fun u ↦ u.utxoClass = .yec || (useReserve && u.utxoClass = .feeReserve)

theorem perm_pool (us : List Utxo) (useReserve : Bool) :
    (pool us useReserve).Perm (eligible us useReserve) :=
  List.perm_insertionSort _ _

theorem pool_eq_of_perm {us us' : List Utxo} (h : Distinct us) (hperm : us'.Perm us)
    (useReserve : Bool) : pool us' useReserve = pool us useReserve := by
  refine sort_eq_of_perm ?_ (hperm.filter _)
  intro a ha b hb heq
  exact ((h.perm hperm).filter _).inj a ha b hb (outpoint_eq_of_poolOrder heq)

theorem zats_perm {us us' : List Utxo} (h : us.Perm us') : zats us = zats us' :=
  (h.map _).sum_eq

theorem zats_nonneg {us : List Utxo} (h : ∀ u ∈ us, 0 < u.value) : 0 ≤ zats us := by
  induction us with
  | nil => exact le_rfl
  | cons u us ih =>
    have hu := h u List.mem_cons_self
    have hus := ih fun v hv ↦ h v (List.mem_cons_of_mem u hv)
    rw [zats_cons]
    omega

theorem zats_le_of_prefix {us front : List Utxo} (hpos : ∀ u ∈ us, 0 < u.value)
    (h : front <+: us) : zats front ≤ zats us := by
  obtain ⟨rest, rfl⟩ := h
  have hrest := zats_nonneg fun u hu ↦ hpos u (List.mem_append_right front hu)
  rw [zats_append]
  omega

/-- Where no front covers what is needed, all there is does not. -/
theorem cover_eq_error {us : List Utxo} {needed total e : Int} (hlt : total < needed)
    (h : cover needed total us = .error e) : total + zats us < needed := by
  induction us generalizing total e with
  | nil =>
    rw [zats_nil]
    omega
  | cons u us ih =>
    rw [cover] at h
    split at h
    · cases h
    · rename_i hshort
      cases hrest : cover needed (total + u.value) us with
      | ok taken =>
        rw [hrest] at h
        cases h
      | error e' =>
        have hall := ih (by omega) hrest
        rw [zats_cons]
        omega

/-- A selection fails exactly when all it may take is not enough. -/
theorem selectYec_eq_error_iff {us : List Utxo} {needed : Int} {useReserve : Bool}
    (hpos : ∀ u ∈ us, 0 < u.value) :
    (∃ e, selectYec us needed useReserve = .error e) ↔ zats (eligible us useReserve) < needed := by
  have hpool : ∀ u ∈ pool us useReserve, 0 < u.value := fun u hu ↦ hpos u (mem_pool hu).1
  rw [← zats_perm (perm_pool us useReserve)]
  constructor
  · rintro ⟨e, h⟩
    rw [selectYec] at h
    split at h
    · cases h
    · rename_i hneeded
      cases hcover : cover needed 0 (pool us useReserve) with
      | ok taken =>
        rw [hcover] at h
        cases h
      | error have_ =>
        have hall := cover_eq_error (by omega) hcover
        omega
  · intro hlt
    cases h : selectYec us needed useReserve with
    | error e => exact ⟨e, rfl⟩
    | ok taken =>
      obtain ⟨hfront, hcovers⟩ := selectYec_eq_ok h
      have hle := zats_le_of_prefix hpool hfront
      omega

/-- What holds of every selection. -/
structure Selects (us : List Utxo) (useReserve : Bool) (needed : Int) : Prop where
  /-- The order is fixed: the reserve first, then by value and outpoint. -/
  sorted : (pool us useReserve).Perm (eligible us useReserve) ∧
    (pool us useReserve).Pairwise fun a b ↦ poolOrder a b = .lt
  fails : (∃ e, selectYec us needed useReserve = .error e) ↔ zats (eligible us useReserve) < needed
  /-- What is taken is the shortest front that reaches what is needed. -/
  shortest : ∀ taken, selectYec us needed useReserve = .ok taken →
    taken <+: pool us useReserve ∧ needed ≤ zats taken ∧
      ∀ front, front <+: pool us useReserve → needed ≤ zats front → taken <+: front
  /-- Needing more drops no coin. -/
  grows : ∀ more taken taken', needed ≤ more → selectYec us needed useReserve = .ok taken →
    selectYec us more useReserve = .ok taken' → taken <+: taken'
  order : ∀ us' : List Utxo, us'.Perm us →
    selectYec us' needed useReserve = selectYec us needed useReserve

theorem selects {us : List Utxo} (hpos : ∀ u ∈ us, 0 < u.value) (hdistinct : Distinct us)
    (useReserve : Bool) (needed : Int) : Selects us useReserve needed where
  sorted := by
    refine ⟨perm_pool us useReserve, pairwise_lt_sort (hdistinct.filter _).nodup ?_⟩
    intro a ha b hb heq
    exact (hdistinct.filter _).inj a ha b hb (outpoint_eq_of_poolOrder heq)
  fails := selectYec_eq_error_iff hpos
  shortest taken h :=
    ⟨(selectYec_eq_ok h).1, (selectYec_eq_ok h).2, fun _ ↦ selectYec_prefix h⟩
  grows more taken taken' hle h h' := by
    obtain ⟨hfront, hcovers⟩ := selectYec_eq_ok h'
    exact selectYec_prefix h hfront (hle.trans hcovers)
  order us' hperm := by
    rw [selectYec, selectYec, pool_eq_of_perm hdistinct hperm]

/-! ## The reserve -/

/-- `RESERVE_K`. -/
def reserveK : Int := 5

/-- `RESERVE_MIN`. -/
def reserveMin : Int := 105000

/-- `reserve_zat`. -/
def reserveZat : Int :=
  let k := reserveK * (feeZat + 2 * tokenZat)
  if k > reserveMin then k else reserveMin

/-- A coin that is no longer reserved. -/
def unreserve (u : Utxo) : Utxo :=
  if u.utxoClass = .feeReserve then { u with utxoClass := .yec } else u

/-- The loop of `apply_fee_reserve` over what it may mark, with what is covered so far. -/
def reserveFront {α : Type} (value : α → Int) (target : Int) : Int → List α → List α
  | _, [] => []
  | covered, a :: as =>
    if covered ≥ target ∨ value a > target then []
    else a :: reserveFront value target (covered + value a) as

/-- `apply_fee_reserve`: coins are marked by their index. -/
def applyFeeReserve (utxos : List Utxo) : List Utxo :=
  let plain := utxos.map unreserve
  let order := (plain.zipIdx.filter fun p ↦ p.1.utxoClass = .yec).insertionSort
    fun p q ↦ plainOrder p.1 q.1 ≠ .gt
  let marked := (reserveFront (fun p ↦ p.1.value) reserveZat 0 order).map Prod.snd
  plain.mapIdx fun i u ↦ if i ∈ marked then { u with utxoClass := .feeReserve } else u

/-- The plain coins, reserved or not, in the order in which they are reserved. -/
def plainCoins (us : List Utxo) : List Utxo :=
  ((us.map unreserve).filter fun u ↦ u.utxoClass = .yec).insertionSort fun a b ↦ plainOrder a b ≠ .gt

/-- The plain coins that are reserved. -/
def reserved (us : List Utxo) : List Utxo :=
  reserveFront Utxo.value reserveZat 0 (plainCoins us)

theorem map_reserveFront {α β : Type} (f : α → β) (value : β → Int) (target covered : Int)
    (as : List α) : (reserveFront (fun a ↦ value (f a)) target covered as).map f =
      reserveFront value target covered (as.map f) := by
  induction as generalizing covered with
  | nil => rfl
  | cons a as ih =>
    rw [List.map_cons, reserveFront, reserveFront]
    split
    · rfl
    · rw [List.map_cons, ih]

theorem reserveFront_subset_front {α : Type} (value : α → Int) (target covered : Int) (as : List α) :
    reserveFront value target covered as <+: as := by
  induction as generalizing covered with
  | nil => exact List.nil_prefix
  | cons a as ih =>
    rw [reserveFront]
    split
    · exact List.nil_prefix
    · exact List.cons_prefix_cons.mpr ⟨rfl, ih _⟩

theorem unreserve_cases (u : Utxo) :
    (u.utxoClass = .feeReserve ∧ unreserve u = { u with utxoClass := .yec }) ∨
      u.utxoClass ≠ .feeReserve ∧ unreserve u = u := by
  by_cases h : u.utxoClass = .feeReserve
  · exact .inl ⟨h, if_pos h⟩
  · exact .inr ⟨h, if_neg h⟩

theorem utxoClass_unreserve_ne (u : Utxo) : (unreserve u).utxoClass ≠ .feeReserve := by
  rcases unreserve_cases u with ⟨-, heq⟩ | ⟨hne, heq⟩
  · rw [heq]
    nofun
  · rw [heq]
    exact hne

theorem map_outpoint_unreserve (us : List Utxo) :
    (us.map unreserve).map Utxo.outpoint = us.map Utxo.outpoint := by
  rw [List.map_map]
  refine List.map_congr_left fun u _ ↦ ?_
  rw [Function.comp_apply]
  rcases unreserve_cases u with ⟨-, heq⟩ | ⟨-, heq⟩
  · rw [heq]
  · rw [heq]

theorem distinct_map_unreserve {us : List Utxo} : Distinct (us.map unreserve) ↔ Distinct us := by
  rw [Distinct, map_outpoint_unreserve, Distinct]

/-- The marked coins are the reserved ones. -/
theorem applyFeeReserve_eq {us : List Utxo} (h : Distinct us) :
    applyFeeReserve us = (us.map unreserve).map fun u ↦
      if u ∈ reserved us then { u with utxoClass := .feeReserve } else u := by
  have hnodup := (distinct_map_unreserve.mpr h).nodup
  rw [applyFeeReserve, reserved, plainCoins]
  generalize us.map unreserve = plain at hnodup ⊢
  generalize horder : (plain.zipIdx.filter fun p ↦ p.1.utxoClass = .yec).insertionSort
    (fun p q ↦ plainOrder p.1 q.1 ≠ .gt) = order
  have hcoins : order.map Prod.fst = (plain.filter fun u ↦ u.utxoClass = .yec).insertionSort
      fun a b ↦ plainOrder a b ≠ .gt := by
    rw [← horder, List.map_insertionSort _ (fun a b ↦ plainOrder a b ≠ .gt) Prod.fst _
      (fun _ _ _ _ ↦ Iff.rfl)]
    congr 1
    rw [← List.zipIdx_map_fst 0 plain, List.filter_map, List.zipIdx_map_fst]
    rfl
  have hindex : ∀ p ∈ order, plain[p.2]? = some p.1 := by
    intro p hp
    rw [← horder, List.mem_insertionSort, List.mem_filter] at hp
    exact List.mem_zipIdx_iff_getElem?.mp hp.1
  have hfront := reserveFront_subset_front (fun p ↦ p.1.value) reserveZat 0 order
  rw [← hcoins, ← map_reserveFront Prod.fst Utxo.value]
  generalize reserveFront (fun p ↦ p.1.value) reserveZat 0 order = front at hfront ⊢
  refine List.ext_getElem? fun i ↦ ?_
  rw [List.getElem?_mapIdx, List.getElem?_map]
  cases hu : plain[i]? with
  | none => rfl
  | some u =>
    have hmem : i ∈ front.map Prod.snd ↔ u ∈ front.map Prod.fst := by
      rw [List.mem_map, List.mem_map]
      constructor
      · rintro ⟨p, hp, rfl⟩
        have hp' := hindex p (hfront.subset hp)
        exact ⟨p, hp, Option.some.inj (hp'.symm.trans hu)⟩
      · rintro ⟨p, hp, rfl⟩
        have hp' := hindex p (hfront.subset hp)
        obtain ⟨hlt, -⟩ := List.getElem?_eq_some_iff.mp hp'
        exact ⟨p, hp, (List.getElem?_inj hlt hnodup).mp (hp'.trans hu.symm)⟩
    simp only [Option.map_some, hmem]

/-- What the loop marks: coins within the target, less than twice of it together, and enough unless
the next coin is larger than the target or there is none. -/
theorem reserveFront_spec {target covered : Int} {us : List Utxo} (hcovered : covered < 2 * target) :
    (∀ u ∈ reserveFront Utxo.value target covered us, u.value ≤ target) ∧
      covered + zats (reserveFront Utxo.value target covered us) < 2 * target ∧
      ∃ rest, us = reserveFront Utxo.value target covered us ++ rest ∧
        (target ≤ covered + zats (reserveFront Utxo.value target covered us) ∨
          ∀ u ∈ rest.head?, target < u.value) := by
  induction us generalizing covered with
  | nil =>
    refine ⟨nofun, ?_, [], rfl, .inr nofun⟩
    rw [reserveFront, zats_nil]
    omega
  | cons u us ih =>
    rw [reserveFront]
    split
    · rename_i hstop
      refine ⟨nofun, ?_, u :: us, rfl, ?_⟩
      · rw [zats_nil]
        omega
      · rw [zats_nil]
        refine hstop.imp (fun h ↦ by omega) fun h v hv ↦ ?_
        cases hv
        exact h
    · rename_i hgo
      obtain ⟨hle, hlt, rest, hrest, hreach⟩ := @ih (covered + u.value) (by omega)
      rw [zats_cons, ← Int.add_assoc]
      refine ⟨?_, hlt, rest, congrArg (u :: ·) hrest, hreach⟩
      rintro v (_ | ⟨_, hv⟩)
      · omega
      · exact hle v hv

/-- Marked as reserved. -/
def markReserved (u : Utxo) : Utxo := { u with utxoClass := .feeReserve }

theorem utxoClass_of_mem_reserved {us : List Utxo} {u : Utxo} (h : u ∈ reserved us) :
    u ∈ us.map unreserve ∧ u.utxoClass = .yec := by
  have hmem := (reserveFront_subset_front Utxo.value reserveZat 0 (plainCoins us)).subset h
  rw [plainCoins, List.mem_insertionSort, List.mem_filter] at hmem
  exact ⟨hmem.1, of_decide_eq_true hmem.2⟩

/-- What holds of the reserve. -/
structure Reserves (us : List Utxo) : Prop where
  /-- Only classes change, and of these only `YEC` and `FEE_RESERVE`, into each other. -/
  frame : List.Forall₂ (fun u v ↦ v = { u with utxoClass := v.utxoClass } ∧
    (v.utxoClass ≠ u.utxoClass → u.utxoClass.yecSpendable ∧ v.utxoClass.yecSpendable))
    us (applyFeeReserve us)
  idempotent : applyFeeReserve (applyFeeReserve us) = applyFeeReserve us
  order : ∀ us' : List Utxo, us'.Perm us → (applyFeeReserve us').Perm (applyFeeReserve us)
  /-- The plain coins are in the order of value and outpoint, and a front of them is marked. -/
  sorted : (plainCoins us).Pairwise fun a b ↦ plainOrder a b = .lt
  front : ∃ front rest, plainCoins us = front ++ rest ∧
    (∀ v, v ∈ applyFeeReserve us ∧ v.utxoClass = .feeReserve ↔ v ∈ front.map markReserved) ∧
    (∀ u ∈ front, u.value ≤ reserveZat) ∧ zats front < 2 * reserveZat ∧
    (reserveZat ≤ zats front ∨ ∀ u ∈ rest.head?, reserveZat < u.value)

theorem unreserve_unreserve (u : Utxo) : unreserve (unreserve u) = unreserve u :=
  if_neg (utxoClass_unreserve_ne u)

/-- What is reserved anew is what was reserved before. -/
theorem map_unreserve_applyFeeReserve {us : List Utxo} (h : Distinct us) :
    (applyFeeReserve us).map unreserve = us.map unreserve := by
  rw [applyFeeReserve_eq h, List.map_map, List.map_map]
  refine List.map_congr_left fun u hu ↦ ?_
  rw [Function.comp_apply, Function.comp_apply]
  split
  · rename_i hmem
    have hclass := (utxoClass_of_mem_reserved hmem).2
    generalize unreserve u = v at hclass ⊢
    cases v
    cases hclass
    rfl
  · exact unreserve_unreserve u

theorem plainCoins_eq_of_perm {us us' : List Utxo} (h : Distinct us) (hperm : us'.Perm us) :
    plainCoins us' = plainCoins us := by
  refine sort_eq_of_perm ?_ ((hperm.map _).filter _)
  intro a ha b hb heq
  exact ((distinct_map_unreserve.mpr (h.perm hperm)).filter _).inj a ha b hb
    (outpoint_eq_of_plainOrder heq)

theorem reserves {us : List Utxo} (h : Distinct us) : Reserves us where
  frame := by
    rw [applyFeeReserve_eq h, List.map_map, List.forall₂_map_right_iff, List.forall₂_same]
    intro u _
    rw [Function.comp_apply]
    split
    · rename_i hmem
      have hclass := (utxoClass_of_mem_reserved hmem).2
      rcases unreserve_cases u with ⟨hu, heq⟩ | ⟨hu, heq⟩
      · rw [heq]
        exact ⟨rfl, fun hne ↦ absurd hu.symm hne⟩
      · rw [heq] at hclass ⊢
        exact ⟨rfl, fun _ ↦ ⟨by rw [hclass]; rfl, rfl⟩⟩
    · rcases unreserve_cases u with ⟨hu, heq⟩ | ⟨hu, heq⟩
      · rw [heq]
        exact ⟨rfl, fun _ ↦ ⟨by rw [hu]; rfl, rfl⟩⟩
      · rw [heq]
        exact ⟨rfl, fun hne ↦ absurd rfl hne⟩
  idempotent := by
    have hmap := map_unreserve_applyFeeReserve h
    have hdistinct : Distinct (applyFeeReserve us) := by
      rw [← distinct_map_unreserve, hmap, distinct_map_unreserve]
      exact h
    have hreserved : reserved (applyFeeReserve us) = reserved us := by
      rw [reserved, reserved, plainCoins, plainCoins, hmap]
    rw [applyFeeReserve_eq hdistinct, hmap, hreserved, ← applyFeeReserve_eq h]
  order us' hperm := by
    have hreserved : reserved us' = reserved us := by
      rw [reserved, reserved, plainCoins_eq_of_perm h hperm]
    rw [applyFeeReserve_eq h, applyFeeReserve_eq (h.perm hperm), hreserved]
    exact (hperm.map _).map _
  sorted := by
    refine pairwise_lt_sort ((distinct_map_unreserve.mpr h).filter _).nodup ?_
    intro a ha b hb heq
    exact ((distinct_map_unreserve.mpr h).filter _).inj a ha b hb (outpoint_eq_of_plainOrder heq)
  front := by
    obtain ⟨hle, hlt, rest, hrest, hreach⟩ := @reserveFront_spec reserveZat 0 (plainCoins us) (by decide)
    rw [Int.zero_add] at hlt hreach
    refine ⟨reserved us, rest, hrest, fun v ↦ ?_, hle, hlt, hreach⟩
    rw [applyFeeReserve_eq h, List.mem_map, List.mem_map]
    constructor
    · rintro ⟨⟨u, hu, rfl⟩, hclass⟩
      split at hclass
      · rename_i hmem
        exact ⟨u, hmem, (if_pos hmem).symm⟩
      · obtain ⟨u, -, rfl⟩ := List.mem_map.mp hu
        exact absurd hclass (utxoClass_unreserve_ne u)
    · rintro ⟨u, hu, rfl⟩
      exact ⟨⟨u, (utxoClass_of_mem_reserved hu).1, if_pos hu⟩, rfl⟩

/-- Coins with positive values at different outpoints: what a selection takes, and what the reserve
keeps back. -/
theorem selection_and_reserve {us : List Utxo} (hpos : ∀ u ∈ us, 0 < u.value)
    (hdistinct : Distinct us) :
    (∀ useReserve needed, Selects us useReserve needed) ∧ Reserves us :=
  ⟨selects hpos hdistinct, reserves hdistinct⟩

/-- Two coins, of which the smaller is reserved. -/
theorem selection_and_reserve_sample :
    (applyFeeReserve [⟨⟨List.Vector.replicate 32 1, 0⟩, "", [], 500000, 1, .yec, 0⟩,
      ⟨⟨List.Vector.replicate 32 2, 0⟩, "", [], 2000, 1, .yec, 0⟩]).map Utxo.utxoClass =
        [.yec, .feeReserve] ∧
      Reserves [⟨⟨List.Vector.replicate 32 1, 0⟩, "", [], 500000, 1, .yec, 0⟩,
        ⟨⟨List.Vector.replicate 32 2, 0⟩, "", [], 2000, 1, .yec, 0⟩] :=
  ⟨by decide +kernel, (selection_and_reserve (by decide) (by unfold Distinct; decide)).2⟩

end Yew.Build
