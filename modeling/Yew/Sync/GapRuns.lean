import Yew.Sync.GapScan
import Yew.Sync.MintSteps

/-!
# What a gap scan reaches

A pass goes on only if it marked a row, and it can mark one only through a transaction it had not
seen or through a token whose holder was unmarked: there are finitely many of both, so the scan ends.
When it does, both chains are derived twenty past the last mark, and every derived address was asked
for.

The scan is `sync` of `core/src/sync.rs` as far as addresses are concerned.  What was recorded of a
transaction is tied to the server's list of it: its bytes, its height and the keys that were own at
that time.  The two halves of the proof, that it ends and what it has seen then, use one measure:
the transactions not yet seen and the tokens whose holder is unmarked.
-/

namespace Yew.Sync

open Script Tx Pq Keys Store Build Addresses

/-! ## Rows -/

/-- The HD rows are the seed's, and no hash has two rows. -/
structure FromSeed (K : Seed) (rows : List AddressRow) : Prop where
  nodup : (rows.map AddressRow.hash160).Nodup
  key : ∀ r ∈ rows, ∀ c, r.hdChain = some c → K.key c r.index = some r.hash160

/-- The table has the key of an index. -/
def Derived (K : Seed) (rows : List AddressRow) (c : Chain) (i : Nat) : Prop :=
  ∃ h, K.key c i = some h ∧ h ∈ rows.map AddressRow.hash160

/-- The table has the keys below every row of it. -/
def Filled (K : Seed) (rows : List AddressRow) : Prop :=
  ∀ c, ∀ r ∈ rows, r.chain = c.number → ∀ i ≤ r.index, Derived K rows c i

/-- Both chains are derived as far past the last used key as the gap is long. -/
def GapKept (K : Seed) (rows : List AddressRow) : Prop :=
  ∀ c, ∀ i ≤ Seed.wantMax c rows, Derived K rows c i

/-- The same rows with more marks. -/
def Marks (rows rows' : List AddressRow) : Prop :=
  ∃ u : Arr 20 → Bool, rows' = rows.map fun r ↦ { r with used := r.used || u r.hash160 }

namespace Marks

variable {rows rows' rows'' : List AddressRow}

theorem refl (rows : List AddressRow) : Marks rows rows := by
  refine ⟨fun _ ↦ false, ?_⟩
  simp

theorem trans (h : Marks rows rows') (h' : Marks rows' rows'') : Marks rows rows'' := by
  obtain ⟨u, rfl⟩ := h
  obtain ⟨v, rfl⟩ := h'
  refine ⟨fun h ↦ u h || v h, ?_⟩
  simp [Bool.or_assoc]

theorem markUsed (h : Arr 20) (rows : List AddressRow) : Marks rows (markUsed h rows) := by
  refine ⟨fun j ↦ j = h, List.map_congr_left fun r _ ↦ ?_⟩
  by_cases heq : r.hash160 = h <;> simp [heq]

theorem hashes (h : Marks rows rows') :
    rows'.map AddressRow.hash160 = rows.map AddressRow.hash160 := by
  obtain ⟨u, rfl⟩ := h
  simp [Function.comp_def]

/-- A row keeps its key and its mark. -/
theorem mem (h : Marks rows rows') {r : AddressRow} (hr : r ∈ rows) :
    ∃ r' ∈ rows', r'.chain = r.chain ∧ r'.index = r.index ∧ r'.hash160 = r.hash160 ∧
      (r.used = true → r'.used = true) := by
  obtain ⟨u, rfl⟩ := h
  exact ⟨_, List.mem_map_of_mem hr, rfl, rfl, rfl, fun hu ↦ by simp [hu]⟩

theorem of_mem (h : Marks rows rows') {r' : AddressRow} (hr : r' ∈ rows') :
    ∃ r ∈ rows, r'.chain = r.chain ∧ r'.index = r.index ∧ r'.hash160 = r.hash160 := by
  obtain ⟨u, rfl⟩ := h
  obtain ⟨r, hmem, rfl⟩ := List.mem_map.mp hr
  exact ⟨r, hmem, rfl, rfl, rfl⟩

theorem fromSeed (h : Marks rows rows') {K : Seed} (hk : FromSeed K rows) : FromSeed K rows' := by
  refine ⟨h.hashes ▸ hk.nodup, fun r' hr' c hc ↦ ?_⟩
  obtain ⟨r, hr, hchain, hindex, hhash⟩ := h.of_mem hr'
  rw [hindex, hhash]
  refine hk.key r hr c ?_
  rw [← hc]
  simp [AddressRow.hdChain, hchain]

theorem derived (h : Marks rows rows') {K : Seed} {c : Chain} {i : Nat} :
    Derived K rows' c i ↔ Derived K rows c i := by
  simp [Derived, h.hashes]

theorem filled (h : Marks rows rows') {K : Seed} (hf : Filled K rows) : Filled K rows' := by
  intro c r' hr' hc i hi
  obtain ⟨r, hr, hchain, hindex, -⟩ := h.of_mem hr'
  exact h.derived.mpr (hf c r hr (hchain ▸ hc) i (hindex ▸ hi))

end Marks

/-! ## The gap -/

theorem mem_maxIndex {c : Chain} {rows : List AddressRow} {m : Nat} (h : maxIndex c rows = some m) :
    ∃ r ∈ rows, r.chain = c.number ∧ r.index = m := by
  obtain ⟨r, hr, rfl⟩ := List.mem_map.mp (List.max?_mem h)
  obtain ⟨hr, hc⟩ := List.mem_filter.mp hr
  exact ⟨r, hr, by simpa using hc, rfl⟩

variable {K : Seed}

theorem Derived.append {rows : List AddressRow} {c : Chain} {i : Nat} (h : Derived K rows c i)
    (new : List AddressRow) : Derived K (rows ++ new) c i := by
  obtain ⟨hash, hkey, hmem⟩ := h
  refine ⟨hash, hkey, ?_⟩
  rw [List.map_append]
  exact List.mem_append_left _ hmem

/-- What deriving some indices of a chain does to the rows and to the created ones. -/
structure Extends (K : Seed) (c : Chain) (indices : List Nat)
    (x y : List AddressRow × List AddressRow) (new : List AddressRow) : Prop where
  rows : y.1 = x.1 ++ new
  nodup : (x.1.map AddressRow.hash160).Nodup → (y.1.map AddressRow.hash160).Nodup
  new : ∀ r ∈ new, r.chain = c.number ∧ r.used = false ∧ r.index ∈ indices ∧
    K.key c r.index = some r.hash160 ∧ r ∈ y.2 ∧ r.hash160 ∉ x.1.map AddressRow.hash160
  derived : ∀ i ∈ indices, Derived K y.1 c i
  created : ∀ r ∈ x.2, r ∈ y.2

theorem insertAddress_cases (row : AddressRow) (rows : List AddressRow) :
    (row.hash160 ∈ rows.map AddressRow.hash160 ∧ insertAddress row rows = rows) ∨
      (row.hash160 ∉ rows.map AddressRow.hash160 ∧ insertAddress row rows = rows ++ [row]) := by
  unfold insertAddress
  by_cases h : row.hash160 ∈ rows.map AddressRow.hash160
  · exact .inl ⟨h, if_pos h⟩
  · exact .inr ⟨h, if_neg h⟩

theorem deriveRow_spec {c : Chain} {x y : List AddressRow × List AddressRow} {i : Nat}
    (h : K.deriveRow c x i = .ok y) : ∃ new, Extends K c [i] x y new := by
  unfold Seed.deriveRow at h
  cases hkey : K.key c i with
  | none => simp [hkey] at h
  | some hash =>
    simp only [hkey, Except.ok.injEq] at h
    subst h
    rcases insertAddress_cases ⟨c.number, i, hash, false⟩ x.1 with ⟨hmem, heq⟩ | ⟨hmem, heq⟩
    · refine ⟨[], by simp [heq], fun hn ↦ by simpa [heq] using hn, by simp, ?_,
        fun r hr ↦ List.mem_append_left _ hr⟩
      intro j hj
      obtain rfl := List.mem_singleton.mp hj
      exact ⟨hash, hkey, by simpa only [heq] using hmem⟩
    · refine ⟨[⟨c.number, i, hash, false⟩], heq, fun hn ↦ ?_, ?_, ?_,
        fun r hr ↦ List.mem_append_left _ hr⟩
      · simp only [heq, List.map_append, List.map_cons, List.map_nil]
        exact List.nodup_append.mpr ⟨hn, List.nodup_singleton _, fun a ha b hb ↦ by
          rintro rfl
          exact hmem (List.mem_singleton.mp hb ▸ ha)⟩
      · intro r hr
        obtain rfl := List.mem_singleton.mp hr
        exact ⟨rfl, rfl, List.mem_singleton_self i, hkey, by simp, hmem⟩
      · intro j hj
        obtain rfl := List.mem_singleton.mp hj
        exact ⟨hash, hkey, by simp [heq]⟩

theorem foldlM_deriveRow_spec {c : Chain} {indices : List Nat}
    {x y : List AddressRow × List AddressRow} (h : indices.foldlM (K.deriveRow c) x = .ok y) :
    ∃ new, Extends K c indices x y new := by
  induction indices generalizing x with
  | nil =>
    obtain rfl : x = y := by simpa [pure, Except.pure] using h
    exact ⟨[], by simp, id, by simp, by simp, fun _ hr ↦ hr⟩
  | cons i is ih =>
    rw [List.foldlM_cons] at h
    cases hz : K.deriveRow c x i with
    | error e => simp [hz, bind, Except.bind] at h
    | ok z =>
      obtain ⟨first, hf⟩ := deriveRow_spec hz
      obtain ⟨rest, hr⟩ := ih (x := z) (by simpa [hz, bind, Except.bind] using h)
      refine ⟨first ++ rest, ?_, fun hn ↦ hr.nodup (hf.nodup hn), ?_, ?_,
        fun r hmem ↦ hr.created r (hf.created r hmem)⟩
      · rw [hr.rows, hf.rows, List.append_assoc]
      · intro r hmem
        rcases List.mem_append.mp hmem with hmem | hmem
        · obtain ⟨hc, hu, hi, hkey, hcr, hnew⟩ := hf.new r hmem
          obtain rfl := List.mem_singleton.mp hi
          exact ⟨hc, hu, List.mem_cons_self, hkey, hr.created r hcr, hnew⟩
        · obtain ⟨hc, hu, hi, hkey, hcr, hnew⟩ := hr.new r hmem
          refine ⟨hc, hu, List.mem_cons_of_mem _ hi, hkey, hcr, fun hx ↦ hnew ?_⟩
          rw [hf.rows, List.map_append]
          exact List.mem_append_left _ hx
      · intro j hj
        rcases List.mem_cons.mp hj with rfl | hj
        · rw [hr.rows]
          exact (hf.derived j (List.mem_singleton_self j)).append rest
        · exact hr.derived j hj

/-- What `ensure_gap` does on one chain. -/
structure Extended (K : Seed) (x y : List AddressRow × List AddressRow) : Prop where
  fromSeed : FromSeed K y.1
  filled : Filled K y.1
  rows : ∃ new, y.1 = x.1 ++ new ∧ (∀ r ∈ new, r.used = false) ∧
    ∀ r ∈ new, r ∈ y.2 ∧ r.hash160 ∉ x.1.map AddressRow.hash160
  created : ∀ r ∈ x.2, r ∈ y.2

theorem wantMax_append {rows new : List AddressRow} (h : ∀ r ∈ new, r.used = false) (c : Chain) :
    Seed.wantMax c (rows ++ new) = Seed.wantMax c rows := by
  have hnone : new.filter AddressRow.used = [] := by
    rw [List.filter_eq_nil_iff]
    intro r hr
    simp [h r hr]
  simp [Seed.wantMax, maxUsedIndex, List.filter_append, hnone]

theorem extendChain_spec {c : Chain} {x y : List AddressRow × List AddressRow}
    (hk : FromSeed K x.1) (hf : Filled K x.1) (h : K.extendChain c x = .ok y) :
    Extended K x y ∧ ∀ i ≤ Seed.wantMax c x.1, Derived K y.1 c i := by
  obtain ⟨new, he⟩ := foldlM_deriveRow_spec h
  have hold {c' : Chain} {i : Nat} (hd : Derived K x.1 c' i) : Derived K y.1 c' i := by
    rw [he.rows]
    exact hd.append new
  -- an index below the first new one lies below a row that is there
  have hall : ∀ i ≤ Seed.wantMax c x.1, Derived K y.1 c i := by
    intro i hi
    by_cases hlt : i < Seed.firstNew c x.1
    · unfold Seed.firstNew at hlt
      cases hm : maxIndex c x.1 with
      | none => simp [hm] at hlt
      | some m =>
        obtain ⟨r, hr, hc, hindex⟩ := mem_maxIndex hm
        refine hold (hf c r hr hc i ?_)
        simp only [hm] at hlt
        omega
    · refine he.derived i (List.mem_range'_1.mpr ⟨by omega, by omega⟩)
  refine ⟨⟨⟨he.nodup hk.nodup, ?_⟩, ?_, ⟨new, he.rows, ?_, ?_⟩, he.created⟩, hall⟩
  · intro r hr c' hc'
    rw [he.rows] at hr
    rcases List.mem_append.mp hr with hr | hr
    · exact hk.key r hr c' hc'
    · obtain ⟨hc, -, -, hkey, -⟩ := he.new r hr
      obtain rfl : c = c' := by simpa [AddressRow.hdChain, hc] using hc'
      exact hkey
  · intro c' r hr hc' i hi
    rw [he.rows] at hr
    rcases List.mem_append.mp hr with hr | hr
    · exact hold (hf c' r hr hc' i hi)
    · obtain ⟨hc, -, hindex, -⟩ := he.new r hr
      obtain rfl : c = c' := by
        have := congrArg Chain.fromNumber (hc.symm.trans hc')
        simpa using this
      obtain ⟨hlow, hhigh⟩ := List.mem_range'_1.mp hindex
      exact hall i (by omega)
  · exact fun r hr ↦ (he.new r hr).2.1
  · exact fun r hr ↦ (he.new r hr).2.2.2.2

/-- What `ensure_gap` does: the gap is kept, and a row that is not new was there. -/
theorem ensureGap_spec {rows rows' created : List AddressRow} (hk : FromSeed K rows)
    (hf : Filled K rows) (h : K.ensureGap rows = .ok (rows', created)) :
    FromSeed K rows' ∧ Filled K rows' ∧ GapKept K rows' ∧ (∀ r ∈ rows, r ∈ rows') ∧
      ∀ r ∈ rows', r ∈ rows ∨ (r ∈ created ∧ r.hash160 ∉ rows.map AddressRow.hash160) := by
  unfold Seed.ensureGap at h
  cases hx : K.extendChain .external (rows, []) with
  | error e => simp [hx, bind, Except.bind] at h
  | ok x =>
    have hy : K.extendChain .change x = .ok (rows', created) := by
      simpa [hx, bind, Except.bind] using h
    obtain ⟨hext, hexternal⟩ := extendChain_spec hk hf hx
    obtain ⟨hext', hchange⟩ := extendChain_spec hext.fromSeed hext.filled hy
    obtain ⟨new, hnew, hunused, hin⟩ := hext.rows
    obtain ⟨new', hnew', hunused', hin'⟩ := hext'.rows
    dsimp only at hnew hnew' hin hin' hexternal hchange
    refine ⟨hext'.fromSeed, hext'.filled, ?_, ?_, ?_⟩
    · intro c i hi
      rw [hnew', wantMax_append hunused'] at hi
      cases c with
      | external =>
        rw [hnew, wantMax_append hunused] at hi
        rw [hnew']
        exact (hexternal i hi).append new'
      | change => exact hchange i hi
    · intro r hr
      rw [hnew', hnew]
      exact List.mem_append_left _ (List.mem_append_left _ hr)
    · intro r hr
      rw [hnew', hnew, List.append_assoc] at hr
      rcases List.mem_append.mp hr with hr | hr
      · exact .inl hr
      rcases List.mem_append.mp hr with hr | hr
      · exact .inr ⟨hext'.created r (hin r hr).1, (hin r hr).2⟩
      · refine .inr ⟨(hin' r hr).1, fun hmem ↦ (hin' r hr).2 ?_⟩
        rw [hnew, List.map_append]
        exact List.mem_append_left _ hmem

/-! ## Records -/

/-- The tables after some transactions were recorded. -/
def recordAll (l : List SeenTx) (t : Tables) : Tables :=
  l.foldl (fun t x ↦ recordTransaction x.own x.tx x.txid x.height t) t

/-- A row of the hash is marked. -/
def Marked (rows : List AddressRow) (h : Arr 20) : Prop :=
  ∃ r ∈ rows, r.hash160 = h ∧ r.used = true

theorem Marks.marked {rows rows' : List AddressRow} (h : Marks rows rows') {j : Arr 20}
    (hj : Marked rows j) : Marked rows' j := by
  obtain ⟨r, hr, hhash, hused⟩ := hj
  obtain ⟨r', hr', -, -, hhash', hused'⟩ := h.mem hr
  exact ⟨r', hr', hhash'.trans hhash, hused' hused⟩

/-- What was seen was recorded, each transaction once, and its own keys are marked. -/
structure Records (C : Crypto) (s s' : Scan) (l : List SeenTx) : Prop where
  tables : s'.tables = recordAll l s.tables
  seen : s'.seen = (l.map SeenTx.txid).reverse ++ s.seen
  transactions : s'.transactions = s.transactions + l.length
  nodup : s.seen.Nodup → s'.seen.Nodup
  kept : ∀ h, Marked s.rows h → Marked s'.rows h
  marked : ∀ x ∈ l, ∀ h ∈ x.own.used C x.tx, Marked s'.rows h

namespace Records

variable {C : Crypto} {s s' s'' : Scan} {l l' : List SeenTx}

theorem of_eq (htables : s'.tables = s.tables) (hseen : s'.seen = s.seen)
    (htransactions : s'.transactions = s.transactions)
    (hkept : ∀ h, Marked s.rows h → Marked s'.rows h) : Records C s s' [] :=
  ⟨htables, hseen, htransactions, fun h ↦ hseen ▸ h, hkept, fun x hx ↦ by cases hx⟩

theorem trans (h : Records C s s' l) (h' : Records C s' s'' l') : Records C s s'' (l ++ l') := by
  refine ⟨?_, ?_, ?_, fun hn ↦ h'.nodup (h.nodup hn), fun j hj ↦ h'.kept j (h.kept j hj), ?_⟩
  · rw [h'.tables, h.tables, recordAll, recordAll, recordAll, List.foldl_append]
  · simp [h'.seen, h.seen]
  · rw [h'.transactions, h.transactions, List.length_append, Nat.add_assoc]
  · intro x hx j hj
    rcases List.mem_append.mp hx with hx | hx
    · exact h'.kept j (h.marked x hx j hj)
    · exact h'.marked x hx j hj

theorem subset (h : Records C s s' l) : s.seen ⊆ s'.seen := by
  rw [h.seen]
  exact List.subset_append_right _ _

end Records

theorem history_recordTransaction (own : Own) (tx : Transaction) (txid : Arr 32) (height : Nat)
    (t : Tables) (u : Arr 32) :
    ((recordTransaction own tx txid height t).history.get? u).isSome ↔
      u = txid ∨ (t.history.get? u).isSome := by
  have houtputs (t : Tables) : (putOutputs own tx txid t).history = t.history := by
    unfold putOutputs
    induction own.outputs tx generalizing t with
    | nil => rfl
    | cons o os ih => exact ih _
  have htokens (t : Tables) : (putSpentTokens tx txid t).history = t.history := by
    unfold putSpentTokens
    induction tx.vin generalizing t with
    | nil => rfl
    | cons i is ih =>
      rw [List.foldl_cons]
      refine (ih _).trans ?_
      split <;> rfl
  have hsettle (t : Tables) : (settlePending txid height t).history = t.history := by
    unfold settlePending
    split <;> rfl
  simp only [recordTransaction, Tables.upsertHistory, OrdMap.get?_insert, hsettle, htokens, houtputs]
  by_cases heq : txid = u
  · simp [heq]
  · simp [heq, Ne.symm heq]

theorem history_recordAll {l : List SeenTx} {t : Tables} {u : Arr 32}
    (h : u ∈ l.map SeenTx.txid ∨ (t.history.get? u).isSome) :
    ((recordAll l t).history.get? u).isSome := by
  induction l generalizing t with
  | nil => simpa [recordAll] using h
  | cons x xs ih =>
    refine ih ?_
    rw [history_recordTransaction]
    rcases h with h | h
    · rcases List.mem_cons.mp h with rfl | h
      · exact .inr (.inl rfl)
      · exact .inl h
    · exact .inr (.inr h)

/-! ## One pass -/

/-- The server lists a transaction with a height, for some address up to the tip. -/
def Scanner.Lists (W : Scanner) (raw : Bytes × Nat) : Prop :=
  ∃ address start raws, W.server.taddressTxs address start W.tip = .ok raws ∧ raw ∈ raws

/-- What was recorded is a transaction that the server lists, with its id and its height. -/
def Scanner.Listed (W : Scanner) (x : SeenTx) : Prop :=
  ∃ raw, W.Lists raw ∧ Transaction.parse W.crypto raw.1 = .ok (x.tx, x.txid) ∧ x.height = raw.2

/-- What a step of a pass does: it marks rows and records transactions, which the server lists, with
the own keys of the pass. -/
structure Looks (W : Scanner) (own : Own) (s s' : Scan) : Prop where
  marks : Marks s.rows s'.rows
  unmarked : s'.newUse = false → s'.rows = s.rows ∧ s.newUse = false
  records : ∃ l, Records W.crypto s s' l ∧ ∀ x ∈ l, W.Listed x ∧ x.own = own

namespace Looks

variable {W : Scanner} {own : Own} {s s' s'' : Scan}

/-- Only the counts, the tokens and the kind of server have changed. -/
theorem of_eq (hrows : s'.rows = s.rows) (hnew : s'.newUse = s.newUse)
    (htables : s'.tables = s.tables) (hseen : s'.seen = s.seen)
    (htransactions : s'.transactions = s.transactions) : Looks W own s s' := by
  refine ⟨hrows ▸ .refl _, fun h ↦ ⟨hrows, hnew ▸ h⟩, [], ?_, fun x hx ↦ by cases hx⟩
  exact .of_eq htables hseen htransactions fun h hh ↦ hrows ▸ hh

theorem refl (s : Scan) : Looks W own s s := of_eq rfl rfl rfl rfl rfl

theorem trans (h : Looks W own s s') (h' : Looks W own s' s'') : Looks W own s s'' := by
  obtain ⟨l, hl, hlisted⟩ := h.records
  obtain ⟨l', hl', hlisted'⟩ := h'.records
  refine ⟨h.marks.trans h'.marks, fun hnew ↦ ?_, l ++ l', hl.trans hl', fun x hx ↦ ?_⟩
  · obtain ⟨hrows', hnew'⟩ := h'.unmarked hnew
    obtain ⟨hrows, hold⟩ := h.unmarked hnew'
    exact ⟨hrows'.trans hrows, hold⟩
  · exact (List.mem_append.mp hx).elim (hlisted x) (hlisted' x)

theorem seen (h : Looks W own s s') : s.seen ⊆ s'.seen := by
  obtain ⟨l, hl, -⟩ := h.records
  exact hl.subset

end Looks

/-- Marking a hash that has no unmarked row changes nothing. -/
theorem markUsed_of_not_newlyUsed {h : Arr 20} {rows : List AddressRow}
    (hnew : newlyUsed h rows = false) : markUsed h rows = rows := by
  refine (List.map_congr_left fun r hr ↦ ?_).trans (List.map_id rows)
  have := (List.any_eq_false.mp hnew) r hr
  by_cases heq : r.hash160 = h
  · have hused : r.used = true := by simpa [heq] using this
    cases r
    simp_all
  · exact if_neg heq

variable {C : Crypto} {W : Scanner} {own : Own}

theorem looks_mark (s : Scan) (h : Arr 20) : Looks W own s (s.mark h) := by
  have hmarks : Marks s.rows (s.mark h).rows := .markUsed h s.rows
  refine ⟨hmarks, fun hnew ↦ ?_, [], .of_eq rfl rfl rfl fun _ hj ↦ hmarks.marked hj, ?_⟩
  swap
  · exact fun x hx ↦ by cases hx
  obtain ⟨hold, hnone⟩ := Bool.or_eq_false_iff.mp hnew
  exact ⟨markUsed_of_not_newlyUsed hnone, hold⟩

theorem looks_foldl {α : Type} {f : Scan → α → Scan} {l : List α}
    (h : ∀ a ∈ l, ∀ s, Looks W own s (f s a)) (s : Scan) : Looks W own s (l.foldl f s) := by
  induction l generalizing s with
  | nil => exact .refl s
  | cons a as ih =>
    exact (h a List.mem_cons_self s).trans (ih (fun b hb ↦ h b (List.mem_cons_of_mem _ hb)) _)

theorem looks_noteToken (falcon : List (PqKeyId × AddressRow)) (s : Scan) (t : Token) :
    Looks W own s (W.noteToken falcon s t) := by
  unfold Scanner.noteToken
  split
  · exact .refl s
  · dsimp only
    split
    · exact (looks_mark s _).trans (.of_eq rfl rfl rfl rfl rfl)
    · exact .of_eq rfl rfl rfl rfl rfl

theorem looks_scanTokens {pending : List (String × Nat)} {falcon : List (PqKeyId × AddressRow)}
    {s s' : Scan} (h : W.scanTokens pending falcon s = .ok s') : Looks W own s s' := by
  unfold Scanner.scanTokens at h
  split at h
  · dsimp only at h
    split at h
    · cases h
    · cases h
      exact looks_foldl (fun t _ s ↦ looks_noteToken falcon s t) s
  · cases h
    exact .refl s

/-- A transaction is recorded, or was. -/
theorem record_cases {own : Own} {s s' : Scan} {raw : Bytes × Nat} (h : W.record own s raw = .ok s') :
    ∃ tx txid, Transaction.parse W.crypto raw.1 = .ok (tx, txid) ∧
      ((txid ∈ s.seen ∧ s' = s) ∨
        (txid ∉ s.seen ∧ s' = { (own.used W.crypto tx).foldl Scan.mark s with
          seen := txid :: s.seen
          tables := recordTransaction own tx txid raw.2 s.tables
          transactions := s.transactions + 1 })) := by
  unfold Scanner.record at h
  cases hparse : Transaction.parse W.crypto raw.1 with
  | error e => simp [hparse] at h
  | ok p =>
    obtain ⟨tx, txid⟩ := p
    simp only [hparse] at h
    refine ⟨tx, txid, rfl, ?_⟩
    have hframe : ∀ (hs : List (Arr 20)) (s : Scan), (hs.foldl Scan.mark s).seen = s.seen ∧
        (hs.foldl Scan.mark s).tables = s.tables ∧
        (hs.foldl Scan.mark s).transactions = s.transactions := by
      intro hs
      induction hs with
      | nil => exact fun s ↦ ⟨rfl, rfl, rfl⟩
      | cons a as ih => exact fun s ↦ ih (s.mark a)
    obtain ⟨hseen, htables, htransactions⟩ := hframe (own.used W.crypto tx) s
    by_cases hmem : txid ∈ s.seen
    · rw [if_pos hmem] at h
      exact .inl ⟨hmem, (Except.ok.inj h).symm⟩
    · rw [if_neg hmem, hseen, htables, htransactions] at h
      exact .inr ⟨hmem, (Except.ok.inj h).symm⟩

/-- The keys that a transaction can mark have rows. -/
def Owned (C : Crypto) (own : Own) (rows : List AddressRow) : Prop :=
  ∀ tx, ∀ h ∈ own.used C tx, h ∈ rows.map AddressRow.hash160

theorem marks_foldl (hs : List (Arr 20)) (s : Scan) : Marks s.rows (hs.foldl Scan.mark s).rows := by
  induction hs generalizing s with
  | nil => exact .refl _
  | cons a as ih => exact (Marks.markUsed a s.rows).trans (ih (s.mark a))

theorem marked_foldl {hs : List (Arr 20)} {s : Scan}
    (hrows : ∀ h ∈ hs, h ∈ s.rows.map AddressRow.hash160) :
    ∀ h ∈ hs, Marked (hs.foldl Scan.mark s).rows h := by
  induction hs generalizing s with
  | nil => simp
  | cons a as ih =>
    have hmarks : Marks s.rows (s.mark a).rows := .markUsed a s.rows
    intro h hh
    rcases List.mem_cons.mp hh with rfl | hh
    · obtain ⟨r, hr, hhash⟩ := List.mem_map.mp (hrows h List.mem_cons_self)
      have hone : Marked (s.mark h).rows h := by
        refine ⟨{ r with used := true }, List.mem_map.mpr ⟨r, hr, ?_⟩, hhash, rfl⟩
        rw [if_pos hhash]
      exact (marks_foldl as (s.mark h)).marked hone
    · refine ih (fun j hj ↦ ?_) h hh
      rw [hmarks.hashes]
      exact hrows j (List.mem_cons_of_mem _ hj)

theorem grows_record {own : Own} {s s' : Scan} {raw : Bytes × Nat} (h : W.record own s raw = .ok s') :
    Marks s.rows s'.rows ∧ s.seen ⊆ s'.seen := by
  obtain ⟨tx, txid, -, ⟨-, rfl⟩ | ⟨-, rfl⟩⟩ := record_cases h
  · exact ⟨.refl _, fun _ hmem ↦ hmem⟩
  · refine ⟨?_, fun _ hmem ↦ List.mem_cons_of_mem _ hmem⟩
    exact marks_foldl _ s

theorem looks_record {s s' : Scan} {raw : Bytes × Nat} (hraw : W.Lists raw)
    (hown : Owned W.crypto own s.rows) (h : W.record own s raw = .ok s') : Looks W own s s' := by
  obtain ⟨tx, txid, hparse, ⟨-, rfl⟩ | ⟨hnew, rfl⟩⟩ := record_cases h
  · exact .refl s'
  · have hmarked : Looks W own s ((own.used W.crypto tx).foldl Scan.mark s) :=
      looks_foldl (fun h _ s ↦ looks_mark s h) s
    refine ⟨hmarked.marks, hmarked.unmarked, [⟨own, tx, txid, raw.2⟩], ⟨rfl, rfl, rfl, fun hn ↦ ?_,
      fun h hh ↦ hmarked.marks.marked hh, fun x hx ↦ ?_⟩, fun x hx ↦ ?_⟩
    · exact List.nodup_cons.mpr ⟨hnew, hn⟩
    · obtain rfl := List.mem_singleton.mp hx
      exact marked_foldl (hown tx)
    · obtain rfl := List.mem_singleton.mp hx
      exact ⟨⟨raw, hraw, hparse, rfl⟩, rfl⟩

/-- A fold of steps that can fail keeps a relation between the state before and behind. -/
theorem foldlM_rel {α σ ε : Type} {R : σ → σ → Prop} (hrefl : ∀ s, R s s)
    (htrans : ∀ {s t u}, R s t → R t u → R s u) {f : σ → α → Except ε σ} {l : List α}
    (hstep : ∀ a ∈ l, ∀ {s s'}, f s a = .ok s' → R s s') {s s' : σ}
    (h : l.foldlM f s = .ok s') : R s s' := by
  induction l generalizing s with
  | nil =>
    obtain rfl : s = s' := by simpa [pure, Except.pure] using h
    exact hrefl s
  | cons a as ih =>
    rw [List.foldlM_cons] at h
    cases ht : f s a with
    | error e => simp [ht, bind, Except.bind] at h
    | ok t =>
      refine htrans (hstep a List.mem_cons_self ht) (ih (fun b hb ↦ hstep b ?_) ?_)
      · exact List.mem_cons_of_mem _ hb
      · simpa [ht, bind, Except.bind] using h

/-- If its range does not start past the tip, an address was asked for, and what the server listed
has been seen. -/
def Scanner.Read (W : Scanner) (seen : List (Arr 32)) (p : String × Nat) : Prop :=
  max p.2 1 ≤ W.tip → ∃ raws, W.server.taddressTxs p.1 (max p.2 1) W.tip = .ok raws ∧
    ∀ raw ∈ raws, ∃ tx, ∃ txid ∈ seen, Transaction.parse W.crypto raw.1 = .ok (tx, txid)

theorem Scanner.Read.mono {seen seen' : List (Arr 32)} {p : String × Nat} (h : W.Read seen p)
    (hsub : seen ⊆ seen') : W.Read seen' p := by
  intro hrange
  obtain ⟨raws, hasked, hseen⟩ := h hrange
  refine ⟨raws, hasked, fun raw hraw ↦ ?_⟩
  obtain ⟨tx, txid, hmem, hparse⟩ := hseen raw hraw
  exact ⟨tx, txid, hsub hmem, hparse⟩

theorem Owned.marks {own : Own} {rows rows' : List AddressRow} (h : Owned C own rows)
    (hmarks : Marks rows rows') : Owned C own rows' := by
  unfold Owned
  rw [hmarks.hashes]
  exact h

/-- A relation that needs the own keys to have rows, along the steps. -/
theorem Looks.chain {s t u : Scan} (h : Owned C own s.rows → Looks W own s t)
    (h' : Owned C own t.rows → Looks W own t u) (hown : Owned C own s.rows) : Looks W own s u :=
  (h hown).trans (h' (hown.marks (h hown).marks))

theorem looks_records {raws : List (Bytes × Nat)} {s s' : Scan} (hraws : ∀ raw ∈ raws, W.Lists raw)
    (hown : Owned W.crypto own s.rows) (h : raws.foldlM (W.record own) s = .ok s') :
    Looks W own s s' :=
  foldlM_rel (R := fun s s' ↦ Owned W.crypto own s.rows → Looks W own s s') (fun s _ ↦ .refl s)
    Looks.chain (fun raw hraw ↦ fun h hown ↦ looks_record (hraws raw hraw) hown h) h hown

theorem seen_records {own : Own} {raws : List (Bytes × Nat)} {s s' : Scan}
    (h : raws.foldlM (W.record own) s = .ok s') :
    ∀ raw ∈ raws, ∃ tx, ∃ txid ∈ s'.seen, Transaction.parse W.crypto raw.1 = .ok (tx, txid) := by
  have hsub {raws : List (Bytes × Nat)} {s s' : Scan} (h : raws.foldlM (W.record own) s = .ok s') :
      s.seen ⊆ s'.seen :=
    foldlM_rel (R := fun s s' ↦ s.seen ⊆ s'.seen) (fun _ _ hmem ↦ hmem)
      List.Subset.trans (fun _ _ ↦ fun h ↦ (grows_record h).2) h
  induction raws generalizing s with
  | nil => simp
  | cons raw raws ih =>
    rw [List.foldlM_cons] at h
    cases ht : W.record own s raw with
    | error e => simp [ht, bind, Except.bind] at h
    | ok t =>
      have hrest : raws.foldlM (W.record own) t = .ok s' := by
        simpa [ht, bind, Except.bind] using h
      intro raw' hraw'
      rcases List.mem_cons.mp hraw' with rfl | hraw'
      · obtain ⟨tx, txid, hparse, hcases⟩ := record_cases ht
        refine ⟨tx, txid, hsub hrest ?_, hparse⟩
        rcases hcases with ⟨hmem, rfl⟩ | ⟨-, rfl⟩
        · exact hmem
        · exact List.mem_cons_self
      · exact ih hrest raw' hraw'

theorem scanAddress_spec {s s' : Scan} {p : String × Nat}
    (hown : Owned W.crypto own s.rows) (h : W.scanAddress own s p = .ok s') :
    Looks W own s s' ∧ W.Read s'.seen p := by
  have hcount : Looks W own s { s with addresses := s.addresses + 1 } :=
    .of_eq rfl rfl rfl rfl rfl
  unfold Scanner.scanAddress at h
  dsimp only at h
  split at h
  · rename_i hpast
    cases h
    exact ⟨hcount, fun hrange ↦ absurd hpast (Nat.not_lt.mpr hrange)⟩
  · split at h
    · cases h
    · rename_i raws hasked
      refine ⟨hcount.trans (looks_records (fun raw hraw ↦ ?_) ?_ h),
        fun _ ↦ ⟨raws, hasked, seen_records h⟩⟩
      · exact ⟨_, _, raws, hasked, hraw⟩
      · exact hown

theorem scanAddresses_spec {pending : List (String × Nat)} {s s' : Scan}
    (hown : Owned W.crypto own s.rows) (h : pending.foldlM (W.scanAddress own) s = .ok s') :
    Looks W own s s' ∧ ∀ p ∈ pending, W.Read s'.seen p := by
  induction pending generalizing s with
  | nil =>
    obtain rfl : s = s' := by simpa [pure, Except.pure] using h
    exact ⟨.refl s, by simp⟩
  | cons p ps ih =>
    rw [List.foldlM_cons] at h
    cases ht : W.scanAddress own s p with
    | error e => simp [ht, bind, Except.bind] at h
    | ok t =>
      obtain ⟨hlooks, hread⟩ := scanAddress_spec hown ht
      obtain ⟨hlooks', hread'⟩ := ih (s := t) (hown.marks hlooks.marks)
        (by simpa [ht, bind, Except.bind] using h)
      refine ⟨hlooks.trans hlooks', fun q hq ↦ ?_⟩
      rcases List.mem_cons.mp hq with rfl | hq
      · exact hread.mono hlooks'.seen
      · exact hread' q hq

theorem looks_scanPq {pq : List (String × Nat)} {s s' : Scan}
    (hown : Owned W.crypto own s.rows) (h : W.scanPq own pq s = .ok s') : Looks W own s s' := by
  induction pq generalizing s with
  | nil =>
    cases h
    exact .refl _
  | cons p ps ih =>
    unfold Scanner.scanPq at h
    split at h
    · exact ih hown h
    · have hcount : Looks W own s { s with pqAddresses := s.pqAddresses + 1 } :=
        .of_eq rfl rfl rfl rfl rfl
      dsimp only at h
      split at h
      · split at h
        · cases h
          exact hcount.trans (.of_eq rfl rfl rfl rfl rfl)
        · cases h
      · rename_i raws hasked
        cases ht : raws.foldlM (W.record own) { s with pqAddresses := s.pqAddresses + 1 } with
        | error e => simp [ht, bind, Except.bind] at h
        | ok t =>
          have hlooks := looks_records (fun raw hraw ↦ ⟨_, _, raws, hasked, hraw⟩) (by exact hown) ht
          refine (hcount.trans hlooks).trans (ih (hown.marks hlooks.marks) ?_)
          simpa [ht, bind, Except.bind] using h

/-- The three parts of a pass. -/
theorem look_ok {pending : List (String × Nat)} {s s' : Scan} (h : W.look pending s = .ok s') :
    ∃ s₁ s₂, W.scanTokens pending (W.falconOf s.rows) { s with newUse := false } = .ok s₁ ∧
      pending.foldlM (W.scanAddress (W.own s.rows)) s₁ = .ok s₂ ∧
      W.scanPq (W.own s.rows) (W.pqPending pending (W.own s.rows) s₁) s₂ = .ok s' := by
  unfold Scanner.look at h
  cases h₁ : W.scanTokens pending (W.falconOf s.rows) { s with newUse := false } with
  | error e => simp [h₁, bind, Except.bind] at h
  | ok s₁ =>
    simp only [h₁, bind, Except.bind] at h
    cases h₂ : pending.foldlM (W.scanAddress (W.own s.rows)) s₁ with
    | error e => simp [h₂] at h
    | ok s₂ =>
      simp only [h₂] at h
      exact ⟨s₁, s₂, rfl, h₂, h⟩

theorem mem_of_lookup {κ ν : Type} [DecidableEq κ] {es : List (κ × ν)} {k : κ} {v : ν}
    (h : es.lookup k = some v) : (k, v) ∈ es := by
  obtain ⟨l₁, l₂, rfl, -⟩ := List.lookup_eq_some_iff.mp h
  simp

theorem exists_lookup {κ ν : Type} [DecidableEq κ] {es : List (κ × ν)} {k : κ} {v : ν}
    (h : (k, v) ∈ es) : ∃ v', es.lookup k = some v' := by
  cases hl : es.lookup k with
  | some v' => exact ⟨v', rfl⟩
  | none => exact absurd (List.lookup_eq_none_iff.mp hl (k, v) h) (by simp)

/-- A post-quantum key is paired with a key of the table: the vault owner of an external key, if the
server offers Yellowback, and the Falcon holder of an HD key, if it announces a Falcon height. -/
def Scanner.Paired (W : Scanner) (rows : List AddressRow) (id : PqKeyId) (h : Arr 20) : Prop :=
  ∃ r ∈ rows, r.hash160 = h ∧
    ((W.vaultsOn = true ∧ r.hdChain = some .external ∧ W.seed.ownerId r.index = id) ∨
      (W.falconOn = true ∧ W.seed.falconHolderId r = some id))

/-- The own keys are those of a table: its key hashes, and the post-quantum keys paired with them. -/
structure Scanner.OwnOf (W : Scanner) (rows : List AddressRow) (own : Own) : Prop where
  hashes : ∀ h, h ∈ own.hashes ↔ h ∈ rows.map AddressRow.hash160
  pq : ∀ id h, (id, h) ∈ own.pq ↔ W.Paired rows id h

theorem mem_addresses {rows : List AddressRow} {r : AddressRow} : r ∈ addresses rows ↔ r ∈ rows :=
  List.mem_insertionSort _

theorem mem_ownPqOwners {rows : List AddressRow} {id : PqKeyId} {h : Arr 20} :
    (id, h) ∈ K.ownPqOwners rows ↔
      ∃ r ∈ rows, r.hash160 = h ∧ r.hdChain = some .external ∧ K.ownerId r.index = id := by
  rw [Seed.ownPqOwners, List.mem_reverse, List.mem_map]
  constructor
  · rintro ⟨r, hr, heq⟩
    obtain ⟨rfl, rfl⟩ := Prod.mk.inj heq
    obtain ⟨hr, hc⟩ := List.mem_filter.mp hr
    exact ⟨r, mem_addresses.mp hr, rfl, by simpa using hc, rfl⟩
  · rintro ⟨r, hr, rfl, hc, rfl⟩
    exact ⟨r, List.mem_filter.mpr ⟨mem_addresses.mpr hr, by simpa using hc⟩, rfl⟩

theorem mem_falconOf {rows : List AddressRow} {e : PqKeyId × AddressRow} :
    e ∈ W.falconOf rows ↔
      W.falconOn = true ∧ e.2 ∈ rows ∧ W.seed.falconHolderId e.2 = some e.1 := by
  unfold Scanner.falconOf
  by_cases hon : W.falconOn = true
  · rw [if_pos hon, Seed.ownFalconHolders, List.mem_reverse, List.mem_filterMap]
    constructor
    · rintro ⟨r, hr, hid⟩
      obtain ⟨id, hholder, rfl⟩ := Option.map_eq_some_iff.mp hid
      exact ⟨hon, mem_addresses.mp hr, hholder⟩
    · rintro ⟨-, hr, hid⟩
      exact ⟨e.2, mem_addresses.mpr hr, Option.map_eq_some_iff.mpr ⟨e.1, hid, rfl⟩⟩
  · rw [if_neg hon]
    exact iff_of_false List.not_mem_nil fun h ↦ hon h.1

/-- What is ours in a pass is what the table of the pass has. -/
theorem ownOf_own (rows : List AddressRow) : W.OwnOf rows (W.own rows) := by
  refine ⟨fun h ↦ ?_, fun id h ↦ ?_⟩
  · simp only [Scanner.own, List.mem_map, mem_addresses]
  · have howners : (id, h) ∈ (if W.vaultsOn then W.seed.ownPqOwners rows else []) ↔
        ∃ r ∈ rows, r.hash160 = h ∧ W.vaultsOn = true ∧ r.hdChain = some .external ∧
          W.seed.ownerId r.index = id := by
      by_cases hon : W.vaultsOn = true
      · rw [if_pos hon, mem_ownPqOwners]
        simp only [hon, true_and]
      · simp [hon]
    have hholders : (id, h) ∈ (W.falconOf rows).map (fun e ↦ (e.1, e.2.hash160)) ↔
        ∃ r ∈ rows, r.hash160 = h ∧ W.falconOn = true ∧ W.seed.falconHolderId r = some id := by
      rw [List.mem_map]
      constructor
      · rintro ⟨e, he, heq⟩
        obtain ⟨rfl, rfl⟩ := Prod.mk.inj heq
        obtain ⟨hon, hr, hid⟩ := mem_falconOf.mp he
        exact ⟨e.2, hr, rfl, hon, hid⟩
      · rintro ⟨r, hr, rfl, hon, hid⟩
        exact ⟨(id, r), mem_falconOf.mpr ⟨hon, hr, hid⟩, rfl⟩
    unfold Scanner.own Seed.ownPqKeys
    rw [List.mem_append, howners, hholders]
    simp only [Scanner.Paired, and_or_left, exists_or]

theorem Scanner.OwnOf.owned {rows : List AddressRow} (h : W.OwnOf rows own) :
    Owned W.crypto own rows := by
  intro tx j hj
  rcases List.mem_append.mp hj with hj | hj
  · obtain ⟨o, ho, rfl⟩ := List.mem_map.mp hj
    obtain ⟨out, -, hout⟩ := List.mem_filterMap.mp ho
    obtain ⟨hash, hholder, rfl⟩ := Option.map_eq_some_iff.mp hout
    rcases Option.or_eq_some_iff.mp hholder with hp | ⟨-, hp⟩
    · exact (h.hashes hash).mp (by simpa using (Option.filter_eq_some_iff.mp hp).2)
    · obtain ⟨id, -, hid⟩ := Option.bind_eq_some_iff.mp hp
      obtain ⟨r, hr, rfl, -⟩ := (h.pq id hash).mp (mem_of_lookup hid)
      exact List.mem_map_of_mem hr
  · obtain ⟨i, -, hi⟩ := List.mem_filterMap.mp hj
    split at hi
    · split at hi
      · rename_i hkey
        cases hi
        exact (h.hashes _).mp hkey.2
      · cases hi
    · cases hi

/-- Every key of a table that a transaction pays or that signed it is marked in another table: the
key of a P2PKH output and of a signed input, and a key that the post-quantum key of an output is
paired with. -/
structure Scanner.UsesMarked (W : Scanner) (known rows : List AddressRow) (tx : Transaction) :
    Prop where
  paid : ∀ o ∈ tx.vout, ∀ h ∈ known.map AddressRow.hash160,
    p2pkhHash o.scriptPubkey = some h → Marked rows h
  paidPq : ∀ o ∈ tx.vout, ∀ id h, pqpkhOf o.scriptPubkey = some id → W.Paired known id h →
    ∃ h', W.Paired known id h' ∧ Marked rows h'
  signed : ∀ i ∈ tx.vin, ∀ sig key, pushes i.scriptSig = some [sig, key] → key.length = 33 →
    W.crypto.hash160 key ∈ known.map AddressRow.hash160 → Marked rows (W.crypto.hash160 key)

theorem mem_used_of_holder {tx : Transaction} {o : TxOut} (ho : o ∈ tx.vout) {h : Arr 20}
    (hholder : own.holder o.scriptPubkey = some h) : h ∈ own.used C tx := by
  obtain ⟨n, hn⟩ := List.mem_iff_getElem?.mp ho
  refine List.mem_append_left _ (List.mem_map.mpr ⟨(UInt32.ofNat n, o.value.toInt, h), ?_, rfl⟩)
  refine List.mem_filterMap.mpr ⟨(o, n), List.mk_mem_zipIdx_iff_getElem?.mpr hn, ?_⟩
  simp only [hholder, Option.map_some]

theorem mem_used_of_signed {tx : Transaction} {i : TxIn} (hi : i ∈ tx.vin) {sig key : Bytes}
    (hpushes : pushes i.scriptSig = some [sig, key]) (hlen : key.length = 33)
    (hkey : C.hash160 key ∈ own.hashes) : C.hash160 key ∈ own.used C tx := by
  refine List.mem_append_right _ (List.mem_filterMap.mpr ⟨i, hi, ?_⟩)
  simp only [hpushes]
  rw [if_pos ⟨hlen, hkey⟩]

theorem Scanner.OwnOf.usesMarked {known rows : List AddressRow} (h : W.OwnOf known own)
    {tx : Transaction} (hmarked : ∀ j ∈ own.used W.crypto tx, Marked rows j) :
    W.UsesMarked known rows tx := by
  refine ⟨fun o ho j hj hp ↦ ?_, fun o ho id j hp hj ↦ ?_, fun i hi sig key hp hlen hkey ↦ ?_⟩
  · refine hmarked j (mem_used_of_holder ho ?_)
    simp [Own.holder, hp, (h.hashes j).mpr hj]
  · obtain ⟨j', hj'⟩ := exists_lookup ((h.pq id j).mpr hj)
    refine ⟨j', (h.pq id j').mp (mem_of_lookup hj'), hmarked j' (mem_used_of_holder ho ?_)⟩
    have hnone : p2pkhHash o.scriptPubkey = none := by
      cases hq : p2pkhHash o.scriptPubkey with
      | none => rfl
      | some q =>
        rw [p2pkhHash_eq_some hq, pqpkhOf_p2pkhScript] at hp
        cases hp
    simp [Own.holder, hnone, hp, hj']
  · exact hmarked _ (mem_used_of_signed hi hp hlen ((h.hashes _).mpr hkey))

theorem look_spec {pending : List (String × Nat)} {s s' : Scan} (h : W.look pending s = .ok s') :
    Looks W (W.own s.rows) { s with newUse := false } s' ∧ ∀ p ∈ pending, W.Read s'.seen p := by
  obtain ⟨s₁, s₂, h₁, h₂, h₃⟩ := look_ok h
  have htokens : Looks W (W.own s.rows) { s with newUse := false } s₁ := looks_scanTokens h₁
  have hown : Owned W.crypto (W.own s.rows) s₁.rows := (ownOf_own s.rows).owned.marks htokens.marks
  obtain ⟨hlooks, hread⟩ := scanAddresses_spec hown h₂
  have hpq := looks_scanPq (hown.marks hlooks.marks) h₃
  exact ⟨(htokens.trans hlooks).trans hpq, fun p hp ↦ (hread p hp).mono hpq.seen⟩

/-! ## What is left to find -/

/-- The holder of a token is marked. -/
def Scanner.tokenDone (W : Scanner) (rows : List AddressRow) (t : Token) : Bool :=
  match parsePqAddress W.crypto W.network t.address with
  | .ok id => rows.any fun r ↦ W.seed.falconHolderId r = some id && r.used
  | .error _ => false

/-- The transactions not seen, and the tokens whose holder is unmarked. -/
def Scanner.cost (W : Scanner) (s : Scan) : Nat :=
  W.server.raws.countP (fun raw ↦ W.crypto.sha256d raw.1 ∉ s.seen) +
    W.server.tokens.countP fun t ↦ !W.tokenDone s.rows t

/-- What a step costs: nothing is found twice, and a new mark is a find. -/
structure Costs (W : Scanner) (s s' : Scan) : Prop where
  le : W.cost s' ≤ W.cost s
  lt : s'.newUse = true → s.newUse = true ∨ W.cost s' < W.cost s

theorem Costs.trans {s t u : Scan} (h : Costs W s t) (h' : Costs W t u) : Costs W s u := by
  refine ⟨h'.le.trans h.le, fun hnew ↦ ?_⟩
  rcases h'.lt hnew with hmid | hlt
  · exact (h.lt hmid).imp_right h'.le.trans_lt
  · exact .inr (hlt.trans_le h.le)

theorem countP_lt {α : Type} {p q : α → Bool} {l : List α} (hle : ∀ a ∈ l, p a = true → q a = true)
    {a : α} (ha : a ∈ l) (hq : q a = true) (hp : p a = false) : l.countP p < l.countP q := by
  induction l with
  | nil => cases ha
  | cons b bs ih =>
    have hrest : bs.countP p ≤ bs.countP q :=
      List.countP_mono_left fun c hc ↦ hle c (List.mem_cons_of_mem _ hc)
    rcases List.mem_cons.mp ha with rfl | ha
    · rw [List.countP_cons_of_neg (by simp [hp]), List.countP_cons_of_pos hq]
      exact Nat.lt_succ_of_le hrest
    · have hlt := ih (fun c hc ↦ hle c (List.mem_cons_of_mem _ hc)) ha
      by_cases hb : p b = true
      · rw [List.countP_cons_of_pos hb, List.countP_cons_of_pos (hle b List.mem_cons_self hb)]
        exact Nat.succ_lt_succ hlt
      · rw [List.countP_cons_of_neg hb, List.countP_cons]
        exact hlt.trans_le (Nat.le_add_right _ _)

/-- A token that is done stays done while rows are added and marked. -/
theorem tokenDone_mono {rows rows' : List AddressRow}
    (h : ∀ r ∈ rows, ∃ r' ∈ rows', r'.chain = r.chain ∧ r'.index = r.index ∧
      (r.used = true → r'.used = true)) {t : Token} (hdone : W.tokenDone rows t = true) :
    W.tokenDone rows' t = true := by
  unfold Scanner.tokenDone at hdone ⊢
  split at hdone
  · rename_i id hparse
    obtain ⟨r, hr, hid⟩ := List.any_eq_true.mp hdone
    obtain ⟨r', hr', hchain, hindex, hused⟩ := h r hr
    refine List.any_eq_true.mpr ⟨r', hr', ?_⟩
    simp only [Bool.and_eq_true, decide_eq_true_eq] at hid ⊢
    refine ⟨?_, hused hid.2⟩
    rw [← hid.1]
    simp [Seed.falconHolderId, AddressRow.hdChain, hchain, hindex]
  · cases hdone

/-- A token that is open was open. -/
theorem tokenOpen_anti {rows rows' : List AddressRow}
    (h : ∀ r ∈ rows, ∃ r' ∈ rows', r'.chain = r.chain ∧ r'.index = r.index ∧
      (r.used = true → r'.used = true)) {t : Token} (hopen : (!W.tokenDone rows' t) = true) :
    (!W.tokenDone rows t) = true := by
  cases hdone : W.tokenDone rows t with
  | false => rfl
  | true =>
    rw [tokenDone_mono h hdone] at hopen
    cases hopen

theorem cost_le {s s' : Scan} (hseen : s.seen ⊆ s'.seen)
    (hrows : ∀ r ∈ s.rows, ∃ r' ∈ s'.rows, r'.chain = r.chain ∧ r'.index = r.index ∧
      (r.used = true → r'.used = true)) : W.cost s' ≤ W.cost s := by
  refine Nat.add_le_add (List.countP_mono_left fun raw _ hraw ↦ ?_)
    (List.countP_mono_left fun t _ ht ↦ tokenOpen_anti hrows ht)
  simp only [decide_eq_true_eq] at hraw ⊢
  exact fun hmem ↦ hraw (hseen hmem)

theorem Marks.kept {rows rows' : List AddressRow} (h : Marks rows rows') :
    ∀ r ∈ rows, ∃ r' ∈ rows', r'.chain = r.chain ∧ r'.index = r.index ∧
      (r.used = true → r'.used = true) := by
  intro r hr
  obtain ⟨r', hr', hchain, hindex, -, hused⟩ := h.mem hr
  exact ⟨r', hr', hchain, hindex, hused⟩

/-- A transaction seen for the first time is a find. -/
theorem costs_record {own : Own} {s s' : Scan} {raw : Bytes × Nat} (hraw : raw ∈ W.server.raws)
    (h : W.record own s raw = .ok s') : Costs W s s' := by
  obtain ⟨hmarks, hseen⟩ := grows_record h
  refine ⟨cost_le hseen hmarks.kept, fun hnew ↦ ?_⟩
  obtain ⟨tx, txid, hparse, ⟨-, rfl⟩ | ⟨hunseen, rfl⟩⟩ := record_cases h
  · exact .inl hnew
  · right
    have htxid : W.crypto.sha256d raw.1 = txid := by
      unfold Transaction.parse at hparse
      cases hat : Transaction.parseAt 64 raw.1 with
      | error e => simp [hat, bind, Except.bind] at hparse
      | ok t =>
        have hboth : t = tx ∧ W.crypto.sha256d raw.1 = txid := by
          simpa [hat, bind, Except.bind, pure, Except.pure] using hparse
        exact hboth.2
    refine Nat.add_lt_add_of_lt_of_le (countP_lt (fun a _ ha ↦ ?_) hraw ?_ ?_)
      (List.countP_mono_left fun t _ ht ↦ tokenOpen_anti hmarks.kept ht)
    · simp only [decide_eq_true_eq] at ha ⊢
      exact fun hmem ↦ ha (hseen hmem)
    · simpa [htxid] using hunseen
    · simp [htxid]

theorem falconHolderIndex_injective {c c' : Chain} {i i' k : Nat}
    (h : falconHolderIndex c i = some k) (h' : falconHolderIndex c' i' = some k) :
    c = c' ∧ i = i' := by
  unfold falconHolderIndex at h h'
  split at h
  · cases h
  · split at h'
    · cases h'
    · rename_i hlow hlow'
      cases c <;> cases c' <;> simp_all <;> omega

theorem falconHolderIndex_lt {c : Chain} {i k : Nat} (h : falconHolderIndex c i = some k) :
    k < 2 ^ 32 := by
  unfold falconHolderIndex at h
  split at h
  · cases h
  · cases c <;> cases h <;> omega

/-- Different indices have different Falcon holders. -/
def Seed.HoldersApart (K : Seed) : Prop :=
  ∀ i < 2 ^ 32, ∀ j < 2 ^ 32, K.falconId i = K.falconId j → i = j

/-- A holder has one row. -/
theorem FromSeed.holder_unique {rows : List AddressRow} (hk : FromSeed K rows)
    (hinj : K.HoldersApart) {r r' : AddressRow} (hr : r ∈ rows) (hr' : r' ∈ rows)
    {id : PqKeyId} (hid : K.falconHolderId r = some id) (hid' : K.falconHolderId r' = some id) :
    r.hash160 = r'.hash160 := by
  obtain ⟨c, hc, i, hi, hfalcon⟩ : ∃ c, r.hdChain = some c ∧ ∃ i,
      falconHolderIndex c r.index = some i ∧ K.falconId i = id := by
    simpa [Seed.falconHolderId, Option.bind_eq_some_iff] using hid
  obtain ⟨c', hc', i', hi', hfalcon'⟩ : ∃ c, r'.hdChain = some c ∧ ∃ i,
      falconHolderIndex c r'.index = some i ∧ K.falconId i = id := by
    simpa [Seed.falconHolderId, Option.bind_eq_some_iff] using hid'
  obtain rfl : i = i' := hinj i (falconHolderIndex_lt hi) i' (falconHolderIndex_lt hi')
    (hfalcon.trans hfalcon'.symm)
  obtain ⟨rfl, hindex⟩ := falconHolderIndex_injective hi hi'
  have hkey := hk.key r hr c hc
  rw [hindex, hk.key r' hr' c hc'] at hkey
  exact (Option.some.inj hkey).symm

/-- A token whose holder it marks is a find. -/
theorem costs_noteToken {rows : List AddressRow} (hk : FromSeed W.seed rows)
    (hinj : W.seed.HoldersApart) {s : Scan} (hmarks : Marks rows s.rows) {t : Token}
    (ht : t ∈ W.server.tokens) : Costs W s (W.noteToken (W.falconOf rows) s t) := by
  have hlooks := @looks_noteToken W (W.own rows) (W.falconOf rows) s t
  refine ⟨cost_le hlooks.seen hlooks.marks.kept, fun hnew ↦ ?_⟩
  unfold Scanner.noteToken at hnew ⊢
  cases hparse : parsePqAddress W.crypto W.network t.address with
  | error e => exact .inl (by simpa [hparse] using hnew)
  | ok id =>
    cases hrow : (W.falconOf rows).lookup id with
    | none => exact .inl (by simpa [hparse, hrow] using hnew)
    | some row =>
      simp only [hparse, hrow, Scan.mark, Bool.or_eq_true] at hnew ⊢
      refine hnew.imp_right fun hnewly ↦ ?_
      obtain ⟨-, hmem, hid⟩ := mem_falconOf.mp (mem_of_lookup hrow)
      obtain ⟨r, hr, hunused⟩ := List.any_eq_true.mp hnewly
      simp only [Bool.and_eq_true, decide_eq_true_eq, Bool.not_eq_true'] at hunused
      obtain ⟨row', hrow', hchain, hindex, hhash, -⟩ := hmarks.mem hmem
      have hks := hmarks.fromSeed hk
      have hrow'r : row' = r := List.inj_on_of_nodup_map hks.nodup hrow' hr
        (hhash.trans hunused.1.symm)
      subst hrow'r
      have hid' : W.seed.falconHolderId row' = some id := by
        rw [← hid]
        simp [Seed.falconHolderId, AddressRow.hdChain, hchain, hindex]
      -- before the mark no row of the holder has one, behind it the row does
      have hopen : W.tokenDone s.rows t = false := by
        rw [Scanner.tokenDone, hparse]
        refine List.any_eq_false.mpr fun r' hr' hboth ↦ ?_
        simp only [Bool.and_eq_true, decide_eq_true_eq] at hboth
        have hsame := List.inj_on_of_nodup_map hks.nodup hr' hrow'
          (hks.holder_unique hinj hr' hrow' hboth.1 hid')
        rw [hsame, hunused.2] at hboth
        cases hboth.2
      have hdone : W.tokenDone (markUsed row.hash160 s.rows) t = true := by
        rw [Scanner.tokenDone, hparse]
        refine List.any_eq_true.mpr ⟨{ row' with used := true }, ?_, ?_⟩
        · refine List.mem_map.mpr ⟨row', hrow', ?_⟩
          rw [if_pos hhash]
        · rw [Bool.and_true]
          exact decide_eq_true hid'
      have hanti {a : Token} (ha : (!W.tokenDone (markUsed row.hash160 s.rows) a) = true) :
          (!W.tokenDone s.rows a) = true := tokenOpen_anti (Marks.markUsed _ _).kept ha
      refine Nat.add_lt_add_of_le_of_lt le_rfl (countP_lt (fun a _ ↦ hanti) ht ?_ ?_)
      · simp [hopen]
      · simp [hdone]

theorem costs_records {own : Own} {raws : List (Bytes × Nat)} (hraws : ∀ raw ∈ raws, raw ∈ W.server.raws)
    {s s' : Scan} (h : raws.foldlM (W.record own) s = .ok s') : Costs W s s' :=
  foldlM_rel (R := Costs W) (fun _ ↦ ⟨le_rfl, .inl⟩) .trans (fun raw hraw ↦ costs_record (hraws raw hraw)) h

theorem costs_scanAddress {own : Own} {s s' : Scan} {p : String × Nat}
    (h : W.scanAddress own s p = .ok s') : Costs W s s' := by
  have hcount : Costs W s { s with addresses := s.addresses + 1 } := ⟨le_rfl, .inl⟩
  unfold Scanner.scanAddress at h
  dsimp only at h
  split at h
  · cases h
    exact hcount
  · split at h
    · cases h
    · rename_i raws hasked
      exact hcount.trans (costs_records (W.server.mem_raws hasked) h)

theorem costs_scanPq {own : Own} {pq : List (String × Nat)} {s s' : Scan}
    (h : W.scanPq own pq s = .ok s') : Costs W s s' := by
  induction pq generalizing s with
  | nil =>
    cases h
    exact ⟨le_rfl, .inl⟩
  | cons p ps ih =>
    unfold Scanner.scanPq at h
    split at h
    · exact ih h
    · have hcount : Costs W s { s with pqAddresses := s.pqAddresses + 1 } := ⟨le_rfl, .inl⟩
      dsimp only at h
      split at h
      · split at h
        · cases h
          exact hcount.trans ⟨le_rfl, .inl⟩
        · cases h
      · rename_i raws hasked
        cases ht : raws.foldlM (W.record own) { s with pqAddresses := s.pqAddresses + 1 } with
        | error e => simp [ht, bind, Except.bind] at h
        | ok t =>
          refine (hcount.trans (costs_records (W.server.mem_raws hasked) ht)).trans (ih ?_)
          simpa [ht, bind, Except.bind] using h

theorem costs_scanTokens {pending : List (String × Nat)} {rows : List AddressRow}
    (hk : FromSeed W.seed rows) (hinj : W.seed.HoldersApart) {s s' : Scan}
    (hmarks : Marks rows s.rows) (h : W.scanTokens pending (W.falconOf rows) s = .ok s') :
    Costs W s s' := by
  unfold Scanner.scanTokens at h
  split at h
  · dsimp only at h
    split at h
    · cases h
    · rename_i tokens hasked
      cases h
      have hall := W.server.mem_tokens hasked
      clear hasked
      induction tokens generalizing s with
      | nil => exact ⟨le_rfl, .inl⟩
      | cons t ts ih =>
        refine (costs_noteToken hk hinj hmarks (hall t List.mem_cons_self)).trans ?_
        refine ih ?_ fun u hu ↦ hall u (List.mem_cons_of_mem _ hu)
        exact hmarks.trans (@looks_noteToken W (W.own rows) _ s t).marks
  · cases h
    exact ⟨le_rfl, .inl⟩

theorem costs_look {pending : List (String × Nat)} {s s' : Scan} (hk : FromSeed W.seed s.rows)
    (hinj : W.seed.HoldersApart) (h : W.look pending s = .ok s') :
    Costs W { s with newUse := false } s' := by
  obtain ⟨s₁, s₂, h₁, h₂, h₃⟩ := look_ok h
  have htokens : Costs W { s with newUse := false } s₁ :=
    costs_scanTokens hk hinj (Marks.refl s.rows) h₁
  have haddresses : Costs W s₁ s₂ :=
    foldlM_rel (R := Costs W) (fun _ ↦ ⟨le_rfl, .inl⟩) .trans (fun _ _ ↦ costs_scanAddress) h₂
  exact (htokens.trans haddresses).trans (costs_scanPq h₃)

/-! ## The passes -/

/-- The table of a wallet that was opened, or left by a scan. -/
structure Opened (K : Seed) (rows : List AddressRow) : Prop where
  fromSeed : FromSeed K rows
  filled : Filled K rows
  gap : GapKept K rows

/-- The end of a pass: the scan is over, or a mark was new and the gap was extended. -/
theorem extend_cases {s s' : Scan} {pending : List (String × Nat)}
    (h : W.extend s = .ok (s', pending)) :
    (s.newUse = false ∧ s' = s ∧ pending = []) ∨
      (s.newUse = true ∧ ∃ rows created, W.seed.ensureGap s.rows = .ok (rows, created) ∧
        s' = { s with rows } ∧ pending = created.map fun r ↦ (W.addressS r, W.birthday)) := by
  unfold Scanner.extend at h
  split at h
  · rename_i hnew
    cases hgap : W.seed.ensureGap s.rows with
    | error e => simp [hgap, bind, Except.bind] at h
    | ok p =>
      obtain ⟨rows, created⟩ := p
      have hpair : { s with rows } = s' ∧
          created.map (fun r ↦ (W.addressS r, W.birthday)) = pending := by
        simpa [hgap, bind, Except.bind, pure, Except.pure] using h
      exact .inr ⟨hnew, rows, created, rfl, hpair.1.symm, hpair.2.symm⟩
  · rename_i hnew
    have hpair := Prod.mk.inj (Except.ok.inj h)
    exact .inl ⟨Bool.eq_false_iff.mpr hnew, hpair.1.symm, hpair.2.symm⟩

theorem passes_nil (fuel : Nat) (s : Scan) : W.passes fuel [] s = some (.ok s) := by
  cases fuel <;> rfl

/-- A pass that goes on leaves less to find. -/
theorem passes_isSome (hinj : W.seed.HoldersApart) {fuel : Nat}
    {pending : List (String × Nat)} {s : Scan} (hk : FromSeed W.seed s.rows)
    (hf : Filled W.seed s.rows) (hfuel : W.cost s < fuel) : (W.passes fuel pending s).isSome := by
  induction fuel generalizing pending s with
  | zero => cases hfuel
  | succ fuel ih =>
    cases pending with
    | nil => rw [passes_nil]; rfl
    | cons p ps =>
      unfold Scanner.passes
      cases hlook : W.look (p :: ps) s with
      | error e => rfl
      | ok t =>
        simp only [bind, Except.bind]
        cases hext : W.extend t with
        | error e => rfl
        | ok x =>
          obtain ⟨s', pending⟩ := x
          dsimp only
          have hmarks := (look_spec hlook).1.marks
          rcases extend_cases hext with ⟨-, rfl, rfl⟩ | ⟨hnew, rows, created, hgap, rfl, rfl⟩
          · rw [passes_nil]; rfl
          · obtain ⟨hk', hf', -, hkept, -⟩ :=
              ensureGap_spec (hmarks.fromSeed hk) (hmarks.filled hf) hgap
            refine ih hk' hf' ?_
            have hle : W.cost { t with rows } ≤ W.cost t :=
              cost_le (fun _ h ↦ h) fun r hr ↦ ⟨r, hkept r hr, rfl, rfl, id⟩
            rcases (costs_look hk hinj hlook).lt hnew with h | hlt
            · cases h
            · have : W.cost { s with newUse := false } = W.cost s := rfl
              omega

/-- The own keys a transaction was recorded with: those of a table that the scan had, between the one
it began with and a later one. -/
def KnewOwn (W : Scanner) (first later : List AddressRow) (own : Own) : Prop :=
  ∃ known, Opened W.seed known ∧
    first.map AddressRow.hash160 ⊆ known.map AddressRow.hash160 ∧
    known.map AddressRow.hash160 ⊆ later.map AddressRow.hash160 ∧ own = W.own known

theorem KnewOwn.mono {first later later' : List AddressRow} (h : KnewOwn W first later own)
    (hsub : later.map AddressRow.hash160 ⊆ later'.map AddressRow.hash160) :
    KnewOwn W first later' own := by
  obtain ⟨known, hopened, hfirst, hlater, heq⟩ := h
  exact ⟨known, hopened, hfirst, List.Subset.trans hlater hsub, heq⟩

/-- What holds between passes: the rows, and for each of them that it is to be asked for or was. -/
structure Reached (W : Scanner) (rows : List AddressRow) (start : Nat) (s₀ : Scan)
    (pending : List (String × Nat)) (s : Scan) : Prop where
  opened : Opened W.seed s.rows
  hashes : rows.map AddressRow.hash160 ⊆ s.rows.map AddressRow.hash160
  asked : ∀ r ∈ s.rows, ∃ p, p.1 = W.addressS r ∧
    p.2 = (if r.hash160 ∈ rows.map AddressRow.hash160 then start else W.birthday) ∧
    (p ∈ pending ∨ W.Read s.seen p)
  records : ∃ l, Records W.crypto s₀ s l ∧ ∀ x ∈ l, W.Listed x ∧ KnewOwn W rows s.rows x.own

theorem Reached.pass {rows : List AddressRow} {start : Nat} {s₀ s t s' : Scan}
    {pending pending' : List (String × Nat)} (h : Reached W rows start s₀ pending s)
    (hlook : W.look pending s = .ok t) (hext : W.extend t = .ok (s', pending')) :
    Reached W rows start s₀ pending' s' := by
  obtain ⟨hlooks, hread⟩ := look_spec hlook
  obtain ⟨l, hl, hlisted⟩ := h.records
  obtain ⟨l', hl', hlisted'⟩ := hlooks.records
  have hkept : Records W.crypto s { s with newUse := false } [] :=
    .of_eq rfl rfl rfl fun _ hj ↦ hj
  have hrecords := (hl.trans hkept).trans hl'
  have hsame : s.rows.map AddressRow.hash160 ⊆ t.rows.map AddressRow.hash160 :=
    hlooks.marks.hashes ▸ List.Subset.refl _
  have hknew : ∀ x ∈ l ++ [] ++ l', W.Listed x ∧ KnewOwn W rows t.rows x.own := by
    intro x hx
    rw [List.append_nil] at hx
    rcases List.mem_append.mp hx with hx | hx
    · exact (hlisted x hx).imp_right fun hknew ↦ hknew.mono hsame
    · obtain ⟨hraw, hown⟩ := hlisted' x hx
      exact ⟨hraw, s.rows, h.opened, h.hashes, hsame, hown⟩
  have hasked : ∀ r ∈ t.rows, ∃ p, p.1 = W.addressS r ∧
      p.2 = (if r.hash160 ∈ rows.map AddressRow.hash160 then start else W.birthday) ∧
      W.Read t.seen p := by
    intro r hr
    obtain ⟨r₀, hr₀, -, -, hhash⟩ := hlooks.marks.of_mem hr
    obtain ⟨p, hp, hfrom, hdone⟩ := h.asked r₀ hr₀
    refine ⟨p, by rw [hp, Scanner.addressS, Scanner.addressS, hhash], by rw [hfrom, hhash], ?_⟩
    rcases hdone with hmem | hdone
    · exact hread p hmem
    · exact hdone.mono hlooks.seen
  have hhashes : rows.map AddressRow.hash160 ⊆ t.rows.map AddressRow.hash160 := by
    rw [hlooks.marks.hashes]
    exact h.hashes
  rcases extend_cases hext with ⟨hnew, rfl, rfl⟩ | ⟨-, rows', created, hgap, rfl, rfl⟩
  · refine ⟨?_, hhashes, fun r hr ↦ ?_, _, hrecords, hknew⟩
    · rw [(hlooks.unmarked hnew).1]
      exact h.opened
    · obtain ⟨p, hp, hfrom, hdone⟩ := hasked r hr
      exact ⟨p, hp, hfrom, .inr hdone⟩
  · obtain ⟨hk, hf, hgapKept, hold, hnew⟩ := ensureGap_spec (hlooks.marks.fromSeed h.opened.fromSeed)
      (hlooks.marks.filled h.opened.filled) hgap
    have hextended : Records W.crypto t { t with rows := rows' } [] := by
      refine .of_eq rfl rfl rfl ?_
      rintro j ⟨r, hr, hj⟩
      exact ⟨r, hold r hr, hj⟩
    have hmore : t.rows.map AddressRow.hash160 ⊆ rows'.map AddressRow.hash160 := by
      intro j hj
      obtain ⟨r, hr, rfl⟩ := List.mem_map.mp hj
      exact List.mem_map_of_mem (hold r hr)
    refine ⟨⟨hk, hf, hgapKept⟩, List.Subset.trans hhashes hmore, fun r hr ↦ ?_, _, hrecords.trans hextended,
      fun x hx ↦ ?_⟩
    swap
    · rw [List.append_nil] at hx
      exact (hknew x hx).imp_right fun h ↦ h.mono hmore
    · rcases hnew r hr with hr | ⟨hcreated, hfresh⟩
      · obtain ⟨p, hp, hfrom, hdone⟩ := hasked r hr
        exact ⟨p, hp, hfrom, .inr hdone⟩
      · refine ⟨(W.addressS r, W.birthday), rfl, ?_, .inl ?_⟩
        · rw [if_neg fun hmem ↦ hfresh (hhashes hmem)]
        · exact List.mem_map.mpr ⟨r, hcreated, rfl⟩

theorem Reached.passes {rows : List AddressRow} {start : Nat} {s₀ s s' : Scan} {fuel : Nat}
    {pending : List (String × Nat)} (h : Reached W rows start s₀ pending s)
    (hpasses : W.passes fuel pending s = some (.ok s')) : Reached W rows start s₀ [] s' := by
  induction fuel generalizing pending s with
  | zero =>
    cases pending with
    | nil =>
      rw [passes_nil] at hpasses
      cases hpasses
      exact h
    | cons p ps => cases hpasses
  | succ fuel ih =>
    cases pending with
    | nil =>
      rw [passes_nil] at hpasses
      cases hpasses
      exact h
    | cons p ps =>
      unfold Scanner.passes at hpasses
      cases hlook : W.look (p :: ps) s with
      | error e => simp [hlook, bind, Except.bind] at hpasses
      | ok t =>
        simp only [hlook, bind, Except.bind] at hpasses
        cases hext : W.extend t with
        | error e => simp [hext] at hpasses
        | ok x =>
          obtain ⟨s₁, pending⟩ := x
          simp only [hext] at hpasses
          exact ih (h.pass hlook hext) hpasses

theorem reached_start {rows : List AddressRow} (hopen : Opened W.seed rows) (start : Nat)
    (tables : Tables) : Reached W rows start (.start rows tables) (W.firstPending start rows)
      (.start rows tables) := by
  refine ⟨hopen, fun _ h ↦ h, fun r hr ↦ ?_, [], .of_eq rfl rfl rfl fun _ h ↦ h,
    fun x hx ↦ by cases hx⟩
  refine ⟨(W.addressS r, start), rfl, ?_, .inl ?_⟩
  · exact (if_pos (List.mem_map_of_mem hr)).symm
  · exact List.mem_map.mpr ⟨r, (List.mem_insertionSort _).mpr hr, rfl⟩

/-- **The gap scan ends.**  Whatever the server lists, the scan needs at most one pass more than there
are transactions and tokens to list. -/
theorem gap_scan_ends (hinj : W.seed.HoldersApart) {rows : List AddressRow}
    (hopen : Opened W.seed rows) (start : Nat) (tables : Tables) {fuel : Nat}
    (hfuel : W.server.raws.length + W.server.tokens.length < fuel) :
    (W.passes fuel (W.firstPending start rows) (.start rows tables)).isSome := by
  refine passes_isSome hinj hopen.fromSeed hopen.filled (Nat.lt_of_le_of_lt ?_ hfuel)
  exact Nat.add_le_add List.countP_le_length List.countP_le_length

/-- **What the gap scan reaches.**  Both chains are derived twenty past their last mark; every address
of the table was asked for, from the window or from the birthday, and what the server listed has been
seen.  The tables are those of recording some listed transactions, each once, with the own keys of
the table of that time; and every key of that table which such a transaction pays or which signed it
is marked. -/
theorem gap_scan_complete {rows : List AddressRow} (hopen : Opened W.seed rows) {start fuel : Nat}
    {tables : Tables} {s : Scan}
    (h : W.passes fuel (W.firstPending start rows) (.start rows tables) = some (.ok s)) :
    GapKept W.seed s.rows ∧
      (∀ r ∈ s.rows, W.Read s.seen (W.addressS r,
        if r.hash160 ∈ rows.map AddressRow.hash160 then start else W.birthday)) ∧
      ∃ l : List SeenTx, s.tables = recordAll l tables ∧ s.seen = (l.map SeenTx.txid).reverse ∧
        (l.map SeenTx.txid).Nodup ∧ s.transactions = l.length ∧
        ∀ x ∈ l, W.Listed x ∧ (s.tables.history.get? x.txid).isSome ∧
          ∃ known, Opened W.seed known ∧
            rows.map AddressRow.hash160 ⊆ known.map AddressRow.hash160 ∧
            known.map AddressRow.hash160 ⊆ s.rows.map AddressRow.hash160 ∧
            W.OwnOf known x.own ∧ W.UsesMarked known s.rows x.tx := by
  have hreached := (reached_start hopen start tables).passes h
  obtain ⟨l, hl, hknew⟩ := hreached.records
  have hseen : s.seen = (l.map SeenTx.txid).reverse := hl.seen.trans (List.append_nil _)
  refine ⟨hreached.opened.gap, fun r hr ↦ ?_, l, hl.tables, hseen, ?_, ?_, fun x hx ↦ ?_⟩
  · obtain ⟨p, hp, hfrom, hpending | hread⟩ := hreached.asked r hr
    · cases hpending
    · rwa [← hp, ← hfrom]
  · exact List.nodup_reverse.mp (hseen ▸ hl.nodup List.nodup_nil)
  · exact hl.transactions.trans (Nat.zero_add _)
  · obtain ⟨hlisted, known, hopened, hfirst, hlater, hown⟩ := hknew x hx
    have hof : W.OwnOf known x.own := hown ▸ ownOf_own known
    refine ⟨hlisted, ?_, known, hopened, hfirst, hlater, hof, hof.usesMarked (hl.marked x hx)⟩
    rw [hl.tables]
    exact history_recordAll (.inl (List.mem_map_of_mem hx))

/-- The table of a new wallet. -/
theorem opened_new {rows created : List AddressRow} (h : K.ensureGap [] = .ok (rows, created)) :
    Opened K rows := by
  have hempty : FromSeed K [] := ⟨List.nodup_nil, fun r hr ↦ by cases hr⟩
  obtain ⟨hk, hf, hgap, -⟩ := ensureGap_spec hempty (fun c r hr ↦ by cases hr) h
  exact ⟨hk, hf, hgap⟩

/-! ### A payment to a key and to one past the gap -/

/-- A seed whose key hashes are the chain and the index. -/
def countingSeed : Seed where
  key c i := Bytes.toArr? 20 (UInt8.ofNat c.number :: UInt8.ofNat i :: List.replicate 18 0)
  ownerId i := ⟨schemeSlhDsa, List.Vector.ofFn fun k ↦ UInt8.ofNat (i / 256 ^ k.val)⟩
  falconId i := ⟨schemeFnDsa, List.Vector.ofFn fun k ↦ UInt8.ofNat (i / 256 ^ k.val)⟩

/-- The rows of the new wallet. -/
def countingRows : List AddressRow :=
  match countingSeed.ensureGap [] with
  | .ok p => p.1
  | .error _ => []

/-- The script of an external key. -/
def countingScript (i : Nat) : Bytes := ((countingSeed.key .external i).map p2pkhScript).getD []

/-- A transaction that pays the first external key and the first one past the gap. -/
def twoKeysTx : Transaction where
  header := txHeaderV4
  versionGroupId := saplingVersionGroupId
  vin := []
  vout := [⟨1000, countingScript 0⟩, ⟨1000, countingScript 20⟩]
  lockTime := 0
  expiryHeight := 0
  shielded := .empty

/-- The transaction as the server sends it. -/
def twoKeysRaw : Bytes :=
  match twoKeysTx.serialize with
  | .ok raw => raw
  | .error _ => []

/-- A server that lists the transaction under every address. -/
def twoKeysServer : Server where
  raws := [(twoKeysRaw, 1)]
  tokens := []
  taddressTxs _ _ _ := .ok [(twoKeysRaw, 1)]
  addressTokens _ := .ok []
  mem_raws h _ hraw := Except.ok.inj h ▸ hraw
  mem_tokens h _ ht := Except.ok.inj h ▸ ht

/-- The wallet with that server. -/
def countingScanner : Scanner :=
  ⟨Crypto.blank, .regtest, countingSeed, twoKeysServer, 1, 1, false, false⟩

/-- Its scan. -/
def countingScan : Option (Except ScanError Scan) :=
  countingScanner.passes 2 (countingScanner.firstPending 1 countingRows) (.start countingRows .empty)

/-- The rows of a scan that ended. -/
def rowsOf (scan : Option (Except ScanError Scan)) : Option (List AddressRow) :=
  match scan with
  | some (.ok s) => some s.rows
  | _ => none

theorem countingSeed_apart : countingSeed.HoldersApart := by
  intro i hi j hj h
  have hbyte (k : Fin 32) : UInt8.ofNat (i / 256 ^ k.val) = UInt8.ofNat (j / 256 ^ k.val) := by
    have hget := congrArg (fun id : PqKeyId ↦ id.hash.get k) h
    simpa only [countingSeed, List.Vector.get_ofFn] using hget
  have hmod (k : Fin 32) : i / 256 ^ k.val % 256 = j / 256 ^ k.val % 256 := by
    simpa using congrArg UInt8.toNat (hbyte k)
  have h₀ := hmod 0
  have h₁ := hmod 1
  have h₂ := hmod 2
  have h₃ := hmod 3
  norm_num at h₀ h₁ h₂ h₃
  omega

theorem opened_countingRows : Opened countingSeed countingRows := by
  have hok : (countingSeed.ensureGap []).isOk = true := by decide +kernel
  unfold countingRows
  cases h : countingSeed.ensureGap [] with
  | error e => simp [h, Except.isOk, Except.toBool] at hok
  | ok p => exact opened_new h

theorem gap_scan_ends_sample : countingScan.isSome :=
  gap_scan_ends countingSeed_apart opened_countingRows 1 .empty (by decide)

theorem gap_scan_complete_sample : ∃ s, countingScan = some (.ok s) ∧ GapKept countingSeed s.rows ∧
    ∃ x : SeenTx, s.tables = recordAll [x] .empty ∧ countingScanner.Listed x ∧
      ∃ known, countingScanner.OwnOf known x.own ∧
        countingScanner.UsesMarked known s.rows x.tx := by
  have hfound : (countingScan.any fun scan ↦ scan.toOption.any fun s ↦ s.transactions = 1) = true := by
    decide +kernel
  obtain ⟨scan, hscan, hfound⟩ := Option.any_eq_true _ _ |>.mp hfound
  cases scan with
  | error e => cases hfound
  | ok s =>
    have hone : s.transactions = 1 := by simpa [Except.toOption] using hfound
    obtain ⟨hgap, -, l, htables, -, -, hlength, hall⟩ :=
      gap_scan_complete opened_countingRows hscan
    obtain ⟨x, rfl⟩ := List.length_eq_one_iff.mp (hlength.symm.trans hone)
    obtain ⟨hlisted, -, known, -, -, -, hown, hmarked⟩ := hall x (List.mem_singleton_self x)
    exact ⟨s, hscan, hgap, x, htables, hlisted, known, hown, hmarked⟩

/-- The transaction was seen before the second key had a row.  When the row is there and the server
lists the transaction under it, the key stays unmarked. -/
theorem later_key_unmarked : ∃ s, countingScan = some (.ok s) ∧
    ∃ r ∈ s.rows, r.used = false ∧ p2pkhScript r.hash160 ∈ twoKeysTx.vout.map TxOut.scriptPubkey := by
  have hfound : (rowsOf countingScan).any (fun rows ↦ rows.any fun r ↦
      !r.used && decide (p2pkhScript r.hash160 ∈ twoKeysTx.vout.map TxOut.scriptPubkey)) = true := by
    decide +kernel
  unfold rowsOf at hfound
  split at hfound
  · rename_i s hs
    obtain ⟨r, hr, hunused⟩ := List.any_eq_true.mp hfound
    rw [Bool.and_eq_true, Bool.not_eq_true', decide_eq_true_eq] at hunused
    exact ⟨s, hs, r, hr, hunused⟩
  · cases hfound

end Yew.Sync
