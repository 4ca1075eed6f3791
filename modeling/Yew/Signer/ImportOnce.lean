import Yew.Signer.OnceRuns

/-!
# Importing records

`set_importsigned` reads its list twice: once against the store, to refuse a record that differs,
and once to insert.  The first pass does not look at the list itself, so of two records for one
pair the later one stays; and the insertions are in memory before the file is written, where they
stay when the write fails.

The request is handled in `yewd/signer/src/sign.rs`, over the store of `signonce.rs`.  What is asked
of it is one structure, `ImportSound`, and the condition under which it holds is on the store, the
list and the write.
-/

namespace Yew.Signer

open Proto Proc

namespace SignOnce

variable {o : SignOnce} {rs rs' : List SignedRecord} {r : SignedRecord}

/-- The record is held as it is given. -/
def Holds (o : SignOnce) (r : SignedRecord) : Prop :=
  o.record? r.setid r.prevout = some (r.role, r.sighash)

/-- A record of the list differs from the one the store has for its pair. -/
def Contradicts (o : SignOnce) (rs : List SignedRecord) : Prop :=
  ∃ r ∈ rs, (o.record? r.setid r.prevout).isSome ∧ ¬ o.Holds r

/-- No two records of the list differ for one pair. -/
def Consistent (rs : List SignedRecord) : Prop :=
  ∀ r ∈ rs, ∀ q ∈ rs, r.setid = q.setid → r.prevout = q.prevout →
    r.role = q.role ∧ r.sighash = q.sighash

theorem Contradicts.perm (h : o.Contradicts rs) (hp : rs.Perm rs') : o.Contradicts rs' := by
  obtain ⟨r, hr, hne⟩ := h
  exact ⟨r, hp.mem_iff.mp hr, hne⟩

theorem Consistent.perm (h : Consistent rs) (hp : rs.Perm rs') : Consistent rs' :=
  fun r hr q hq ↦ h r (hp.mem_iff.mpr hr) q (hp.mem_iff.mpr hq)

/-- Records of one store do not differ among themselves. -/
theorem consistent_of_holds (h : ∀ r ∈ rs, o.Holds r) : Consistent rs := by
  intro r hr q hq hset hprev
  have heq := h r hr
  rw [Holds, hset, hprev, h q hq] at heq
  obtain ⟨hrole, hhash⟩ := Prod.ext_iff.mp (Option.some.inj heq)
  exact ⟨hrole.symm, hhash.symm⟩

/-! ## The first loop -/

theorem check_eq_different {role : UInt8} {h : String} (hd : o.check r.setid r.prevout r.role
    r.sighash = .different role h) :
    (o.record? r.setid r.prevout).isSome ∧ ¬ o.Holds r := by
  refine ⟨?_, fun hold ↦ ?_⟩
  · cases hr : o.record? r.setid r.prevout with
    | none =>
      rw [check_eq_absent.mpr hr] at hd
      cases hd
    | some v => rfl
  · rw [check_eq_same.mpr hold] at hd
    cases hd

/-- A list that contradicts the store is refused by the first loop. -/
theorem importCounts_of_contradicts (h : o.Contradicts rs) : ∃ e, o.importCounts rs = .error e := by
  cases hn : o.importCounts rs with
  | error e => exact ⟨e, rfl⟩
  | ok n =>
    obtain ⟨r, hr, hsome, hne⟩ := h
    rcases importCounts_eq_ok hn r hr with hnone | hold
    · rw [hnone] at hsome
      cases hsome
    · exact absurd hold hne

/-- Any other list passes, with the numbers of its new records and of those that are there. -/
theorem importCounts_of_agrees (h : ¬ o.Contradicts rs) : o.importCounts rs =
    .ok (rs.countP fun r ↦ (o.record? r.setid r.prevout).isNone,
      rs.countP fun r ↦ (o.record? r.setid r.prevout).isSome) := by
  induction rs with
  | nil => rfl
  | cons r rs ih =>
    have htail : ¬ o.Contradicts rs :=
      fun ⟨q, hq, hne⟩ ↦ h ⟨q, List.mem_cons_of_mem _ hq, hne⟩
    simp only [importCounts, ih htail, List.countP_cons]
    split
    · rename_i hc
      simp [check_eq_same.mp hc, Except.map]
    · rename_i hc
      simp [check_eq_absent.mp hc, Except.map]
    · rename_i hc
      exact absurd ⟨r, List.mem_cons_self, check_eq_different hc⟩ h

/-! ## The second loop -/

/-- The insertions leave the marks alone. -/
theorem insertAll_marks (o : SignOnce) (rs : List SignedRecord) :
    (o.insertAll rs).restored = o.restored ∧ (o.insertAll rs).pending = o.pending := by
  induction rs generalizing o with
  | nil => exact ⟨rfl, rfl⟩
  | cons r rs ih => exact ih (o.insert r)

theorem record?_insertAll_of_not {p q : String} (h : ∀ r ∈ rs, ¬ (r.setid = p ∧ r.prevout = q)) :
    (o.insertAll rs).record? p q = o.record? p q := by
  induction rs generalizing o with
  | nil => rfl
  | cons r rs ih =>
    have hstep := ih (o := o.insert r) fun x hx ↦ h x (List.mem_cons_of_mem _ hx)
    rw [record?_insert, if_neg (h r List.mem_cons_self)] at hstep
    exact hstep

/-- Behind the insertions a pair of the list has a record of the list. -/
theorem exists_insertAll (hr : r ∈ rs) : ∃ q ∈ rs, q.setid = r.setid ∧ q.prevout = r.prevout ∧
    (o.insertAll rs).Holds q := by
  induction rs generalizing o r with
  | nil => cases hr
  | cons x rs ih =>
    by_cases hlater : ∃ y ∈ rs, y.setid = r.setid ∧ y.prevout = r.prevout
    · obtain ⟨y, hy, hset, hprev⟩ := hlater
      obtain ⟨q, hq, hq₁, hq₂, hold⟩ := ih (o := o.insert x) hy
      exact ⟨q, List.mem_cons_of_mem _ hq, hq₁.trans hset, hq₂.trans hprev, hold⟩
    · have hx : r = x := by
        rcases List.mem_cons.mp hr with heq | hr
        · exact heq
        · exact absurd ⟨r, hr, rfl, rfl⟩ hlater
      subst hx
      refine ⟨r, List.mem_cons_self, rfl, rfl, ?_⟩
      have hskip : ((o.insert r).insertAll rs).record? r.setid r.prevout =
          (o.insert r).record? r.setid r.prevout :=
        record?_insertAll_of_not fun y hy hkey ↦ hlater ⟨y, hy, hkey⟩
      change ((o.insert r).insertAll rs).record? r.setid r.prevout = some (r.role, r.sighash)
      rw [hskip, record?_insert, if_pos ⟨rfl, rfl⟩]

/-- A list that does not contradict itself is held as given. -/
theorem holds_insertAll (hc : Consistent rs) (hr : r ∈ rs) : (o.insertAll rs).Holds r := by
  obtain ⟨q, hq, hset, hprev, hold⟩ := exists_insertAll (o := o) hr
  obtain ⟨hrole, hhash⟩ := hc q hq r hr hset hprev
  rwa [Holds, hset, hprev, hrole, hhash] at hold

/-- And in any order. -/
theorem insertAll_perm (hc : Consistent rs) (hp : rs.Perm rs') :
    o.insertAll rs = o.insertAll rs' := by
  have hrecords : (o.insertAll rs).records = (o.insertAll rs').records := by
    apply OrdMap.ext_get?
    intro k
    change (o.insertAll rs).record? (ofLex k).1 (ofLex k).2 =
      (o.insertAll rs').record? (ofLex k).1 (ofLex k).2
    by_cases hk : ∃ r ∈ rs, r.setid = (ofLex k).1 ∧ r.prevout = (ofLex k).2
    · obtain ⟨r, hr, hset, hprev⟩ := hk
      have hleft := holds_insertAll (o := o) hc hr
      have hright := holds_insertAll (o := o) (hc.perm hp) (hp.mem_iff.mp hr)
      rw [Holds, hset, hprev] at hleft hright
      rw [hleft, hright]
    · have hnot (r : SignedRecord) (hr : r ∈ rs) :
          ¬ (r.setid = (ofLex k).1 ∧ r.prevout = (ofLex k).2) := fun hkey ↦ hk ⟨r, hr, hkey⟩
      rw [record?_insertAll_of_not hnot,
        record?_insertAll_of_not fun r hr ↦ hnot r (hp.mem_iff.mpr hr)]
  obtain ⟨hmark, hpend⟩ := insertAll_marks o rs
  obtain ⟨hmark', hpend'⟩ := insertAll_marks o rs'
  cases hl : o.insertAll rs
  cases hr : o.insertAll rs'
  simp_all

/-- Records that are there already change nothing. -/
theorem insertAll_of_holds (h : ∀ r ∈ rs, o.Holds r) : o.insertAll rs = o := by
  induction rs with
  | nil => rfl
  | cons r rs ih =>
    have hsame : o.insert r = o := by
      have hget : o.records.insert (toLex (r.setid, r.prevout)) (r.role, r.sighash) = o.records :=
        OrdMap.insert_get?_self (h r List.mem_cons_self)
      rw [insert, hget]
    change (o.insert r).insertAll rs = o
    rw [hsame]
    exact ih fun q hq ↦ h q (List.mem_cons_of_mem _ hq)

/-- And a list that changes nothing and does not contradict the store was there. -/
theorem holds_of_insertAll_eq (h : ¬ o.Contradicts rs) (heq : o.insertAll rs = o) :
    ∀ r ∈ rs, o.Holds r := by
  intro r hr
  obtain ⟨q, -, hset, hprev, hold⟩ := exists_insertAll (o := o) hr
  rw [heq, Holds, hset, hprev] at hold
  by_contra hne
  exact h ⟨r, hr, by rw [hold]; rfl, hne⟩

end SignOnce

open SignOnce

/-! ## The import -/

/-- The next write fails, and the signer goes on. -/
def St.WriteFails (s : St) : Prop := ∃ e kept, s.writes.head? = some (.failed e kept)

/-- What is seen of an import: the counts or a refusal, whatever record its text names, and the state
it leaves. -/
def seen (x : Except Stop (Except String (Nat × Nat)) × St) :
    Except Stop (Option (Nat × Nat)) × St := (x.1.map Except.toOption, x.2)

/-- What an import is to do: all of the list or nothing, nothing of a list with a contradiction, and
the same in every order.  A process that ends in the write answers nothing. -/
structure ImportSound (s : St) (rs : List SignedRecord) : Prop where
  whole : ∀ a s', importOnce rs s = (.ok a, s') →
    (∃ e, a = .error e) ∧ s'.core = s.core ∧ s'.disk = s.disk ∨
      (∃ n, a = .ok n) ∧ ∀ r ∈ rs, s'.core.once.Holds r ∧ s'.disk.records.Holds r
  refuses : s.core.once.Contradicts rs ∨ ¬ Consistent rs →
    ∃ e s', importOnce rs s = (.ok (.error e), s')
  order : ∀ rs', rs.Perm rs' → seen (importOnce rs s) = seen (importOnce rs' s)

section

variable {s : St} {rs : List SignedRecord}

theorem importOnce_of_contradicts (h : s.core.once.Contradicts rs) :
    ∃ e, importOnce rs s = (.ok (.error e), s) := by
  obtain ⟨e, he⟩ := importCounts_of_contradicts h
  refine ⟨e, ?_⟩
  simp [importOnce, Proc.bind_apply, core, he]

/-- What passes the first loop is inserted and saved. -/
theorem importOnce_of_agrees (h : ¬ s.core.once.Contradicts rs) : importOnce rs s =
    (changeOnce (insertAll · rs) >>= fun x ↦ pure (x.map fun _ ↦
      (rs.countP fun r ↦ (s.core.once.record? r.setid r.prevout).isNone,
        rs.countP fun r ↦ (s.core.once.record? r.setid r.prevout).isSome))) s := by
  simp only [importOnce, Proc.bind_apply, core, importCounts_of_agrees h]
  cases changeOnce (fun o ↦ o.insertAll rs) s with
  | mk y s' =>
    cases y with
    | error e => rfl
    | ok x => cases x <;> rfl

/-- A replacement fails when the next write does, and then leaves the file. -/
theorem replaceFile_eq_refused {f : Disk → Disk} {e : String} {s' : St}
    (h : replaceFile f s = (.ok (.error e), s')) :
    s.WriteFails ∧ s'.core = s.core ∧ s'.disk = s.disk := by
  cases hw : s.writes with
  | nil => simp [replaceFile, nextWrite, hw, Proc.bind_apply, modifyDisk] at h
  | cons w ws =>
    cases w with
    | done => simp [replaceFile, nextWrite, hw, Proc.bind_apply, modifyDisk] at h
    | failed e' kept =>
      simp only [replaceFile, nextWrite, hw, Proc.bind_apply, Proc.pure_apply] at h
      cases h
      exact ⟨⟨e, kept, by rw [hw]; rfl⟩, rfl, rfl⟩
    | cut kept =>
      by_cases hk : kept = 0
      · simp [replaceFile, nextWrite, hw, Proc.bind_apply, hk] at h
      · simp [replaceFile, nextWrite, hw, Proc.bind_apply, hk, modifyDisk] at h

theorem replaceFile_of_writeFails (f : Disk → Disk) (hw : s.WriteFails) :
    ∃ e s', replaceFile f s = (.ok (.error e), s') := by
  obtain ⟨e, kept, hw⟩ := hw
  obtain ⟨ws, hws⟩ := List.head?_eq_some_iff.mp hw
  refine ⟨e, { s with writes := ws }, ?_⟩
  simp only [replaceFile, Proc.bind_apply, nextWrite, hws, Proc.pure_apply]

/-- A refusal behind the first loop is that of the write, and memory has changed. -/
theorem importOnce_eq_refused (h : ¬ s.core.once.Contradicts rs) {e : String} {s' : St}
    (hrun : importOnce rs s = (.ok (.error e), s')) :
    s.WriteFails ∧ s'.core = { s.core with once := s.core.once.insertAll rs } ∧
      s'.disk = s.disk := by
  rw [importOnce_of_agrees h, Proc.bind_eq_ok] at hrun
  obtain ⟨x, s₁, hchange, hx⟩ := hrun
  cases x with
  | ok => cases hx
  | error e' =>
    cases hx
    rw [changeOnce_cases] at hchange
    exact replaceFile_eq_refused hchange

theorem importOnce_of_writeFails (h : ¬ s.core.once.Contradicts rs) (hw : s.WriteFails) :
    ∃ e s', importOnce rs s = (.ok (.error e), s') := by
  obtain ⟨e, s', hs'⟩ := replaceFile_of_writeFails
    (s := { s with core := { s.core with once := s.core.once.insertAll rs } })
    (fun d ↦ { d with once := some (s.core.once.insertAll rs).toFile }) hw
  refine ⟨e, s', ?_⟩
  rw [importOnce_of_agrees h, Proc.bind_apply, changeOnce_cases, hs']
  rfl

/-- An accepted import has its list in memory and in the file. -/
theorem importOnce_eq_accepted {n : Nat × Nat} {s' : St}
    (hrun : importOnce rs s = (.ok (.ok n), s')) :
    s'.core.once = s.core.once.insertAll rs ∧
      s'.disk.once = some (s.core.once.insertAll rs).toFile := by
  have h : ¬ s.core.once.Contradicts rs := by
    intro hc
    obtain ⟨e, he⟩ := importOnce_of_contradicts hc
    rw [he] at hrun
    cases hrun
  rw [importOnce_of_agrees h, Proc.bind_apply, changeOnce_cases] at hrun
  obtain ⟨ws, -, hw | ⟨-, ⟨e', hw⟩ | ⟨d, -, hw⟩⟩⟩ := replaceFile_cases
    (fun d ↦ { d with once := some (s.core.once.insertAll rs).toFile })
    { s with core := { s.core with once := s.core.once.insertAll rs } }
  · rw [hw] at hrun
    cases hrun
    exact ⟨rfl, rfl⟩
  · rw [hw] at hrun
    cases hrun
  · rw [hw] at hrun
    cases hrun

/-- The order of a list without contradictions does not matter. -/
theorem importOnce_perm (h : ¬ s.core.once.Contradicts rs) (hc : Consistent rs)
    {rs' : List SignedRecord} (hp : rs.Perm rs') : importOnce rs s = importOnce rs' s := by
  have h' : ¬ s.core.once.Contradicts rs' := fun hx ↦ h (hx.perm hp.symm)
  rw [importOnce_of_agrees h, importOnce_of_agrees h', Proc.bind_apply, Proc.bind_apply,
    changeOnce_cases, changeOnce_cases, insertAll_perm hc hp, hp.countP_eq, hp.countP_eq]

theorem seen_of_contradicts (h : s.core.once.Contradicts rs) :
    seen (importOnce rs s) = (.ok none, s) := by
  obtain ⟨e, he⟩ := importOnce_of_contradicts h
  rw [he]
  rfl

/-- An import does what it is to do exactly when the store refuses its list, or the list does not
contradict itself and is either there already or the write does not fail. -/
theorem importSound_iff (s : St) (rs : List SignedRecord) : ImportSound s rs ↔
    s.core.once.Contradicts rs ∨
      Consistent rs ∧ (¬ s.WriteFails ∨ ∀ r ∈ rs, s.core.once.Holds r) := by
  constructor
  · intro hs
    by_cases h : s.core.once.Contradicts rs
    · exact .inl h
    -- whatever is refused from here on has to have been there
    have hheld {e : String} {s' : St} (hrun : importOnce rs s = (.ok (.error e), s')) :
        ∀ r ∈ rs, s.core.once.Holds r := by
      obtain ⟨-, hcore, -⟩ | ⟨⟨n, hn⟩, -⟩ := hs.whole _ _ hrun
      · rw [(importOnce_eq_refused h hrun).2.1] at hcore
        exact holds_of_insertAll_eq h (congrArg Core.once hcore)
      · cases hn
    refine .inr ⟨?_, ?_⟩
    · by_contra hc
      obtain ⟨e, s', hrun⟩ := hs.refuses (.inr hc)
      exact hc (consistent_of_holds (hheld hrun))
    · by_cases hw : s.WriteFails
      · obtain ⟨e, s', hrun⟩ := importOnce_of_writeFails h hw
        exact .inr (hheld hrun)
      · exact .inl hw
  · intro hcond
    by_cases h : s.core.once.Contradicts rs
    · obtain ⟨e, he⟩ := importOnce_of_contradicts h
      refine ⟨?_, fun _ ↦ ⟨e, s, he⟩, ?_⟩
      · intro a s' hrun
        rw [he] at hrun
        cases hrun
        exact .inl ⟨⟨e, rfl⟩, rfl, rfl⟩
      · intro rs' hp
        rw [seen_of_contradicts h, seen_of_contradicts (h.perm hp)]
    · obtain ⟨hc, hw⟩ := hcond.resolve_left h
      refine ⟨?_, fun hno ↦ ?_, fun rs' hp ↦ by rw [importOnce_perm h hc hp]⟩
      · intro a s' hrun
        cases a with
        | ok n =>
          obtain ⟨hcore, hdisk⟩ := importOnce_eq_accepted hrun
          refine .inr ⟨⟨n, rfl⟩, fun r hr ↦ ⟨?_, ?_⟩⟩
          · rw [hcore]
            exact holds_insertAll hc hr
          · have hrec : s'.disk.records = ofFile (s.core.once.insertAll rs).toFile := by
              rw [Disk.records, hdisk]
              rfl
            rw [hrec, Holds, record?_ofFile_toFile]
            exact holds_insertAll hc hr
        | error e =>
          obtain ⟨hfail, hcore, hdisk⟩ := importOnce_eq_refused h hrun
          have hheld := hw.resolve_left (not_not_intro hfail)
          rw [insertAll_of_holds hheld] at hcore
          exact .inl ⟨⟨e, rfl⟩, hcore, hdisk⟩
      · exact absurd hno (by simp [h, hc])

/-- Two records for one pair: the signature of another role comes second. -/
def sampleTwice : List SignedRecord := [⟨"a", "b", 1, "c"⟩, ⟨"a", "b", 2, "d"⟩]

/-- Over an empty store a list that contradicts itself is accepted, and its first record is lost; and
a write that fails leaves the record of a refused import in memory. -/
theorem not_importSound : ¬ ImportSound ⟨sampleCore, sampleDisk, sampleEnv, []⟩ sampleTwice ∧
    ¬ ImportSound ⟨sampleCore, sampleDisk, sampleEnv, [.failed "disk full" 0]⟩
      [⟨"a", "b", 1, "c"⟩] := by
  have hagree (rs : List SignedRecord) : ¬ sampleCore.once.Contradicts rs :=
    fun ⟨r, _, hsome, _⟩ ↦ nomatch hsome
  refine ⟨fun hs ↦ ?_, fun hs ↦ ?_⟩
  · have htwice : ¬ Consistent sampleTwice := by
      intro hc
      have heq := hc ⟨"a", "b", 1, "c"⟩ (by simp [sampleTwice]) ⟨"a", "b", 2, "d"⟩
        (by simp [sampleTwice]) rfl rfl
      simp at heq
    obtain ⟨e, s', hrun⟩ := hs.refuses (.inr htwice)
    obtain ⟨⟨e', kept, hw⟩, -⟩ := importOnce_eq_refused (hagree _) hrun
    cases hw
  · have hfail : St.WriteFails ⟨sampleCore, sampleDisk, sampleEnv, [.failed "disk full" 0]⟩ :=
      ⟨"disk full", 0, rfl⟩
    obtain ⟨e, s', hrun⟩ := importOnce_of_writeFails (hagree _) hfail
    obtain ⟨-, hcore, -⟩ | ⟨⟨n, hn⟩, -⟩ := hs.whole _ _ hrun
    · rw [(importOnce_eq_refused (hagree _) hrun).2.1] at hcore
      have heq := holds_of_insertAll_eq (hagree _) (congrArg Core.once hcore) _
        List.mem_cons_self
      cases heq
    · cases hn

end

end Yew.Signer
