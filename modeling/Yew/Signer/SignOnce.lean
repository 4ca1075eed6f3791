import Yew.Signer.State

/-!
# The sign-once records

For every set and prevout the signer keeps the role and sighash it signed, in memory and in
`signonce.json`.  Beside them stand the restore marker and the imported keys that are watched for
a `SET_JOIN`.  Nothing ever changes a record that is there: this is `SignOnce.Keeps`, and every
operation below moves along it.

A set is found by the text of its id, as the request spells it; the records do not know that two
spellings are one id.

## Source

* `yewd/signer/src/signonce.rs`: `Check`, `SignOnce::load`, `SignOnce::check`, `SignOnce::record`,
  `SignOnce::import`, `SignOnce::mark_restored`, `SignOnce::key_imported`, `SignOnce::joins_seen`
  and 3 more
-/

namespace Yew.Signer

open Proto

namespace SignOnce

/-- `signonce::FORMAT`. -/
def format := "yewd-signonce-1"

/-- `Check`: what is recorded for a pair, beside what is to be signed. -/
inductive Check where
  | same
  | absent
  | different (role : UInt8) (sighash : String)
deriving DecidableEq

/-- What is recorded for a set and a prevout, both as the caller spells them. -/
def record? (o : SignOnce) (setid prevout : String) : Option (UInt8 × String) :=
  o.records.get? (toLex (setid, prevout))

/-- `SignOnce::check`. -/
def check (o : SignOnce) (setid prevout : String) (role : UInt8) (sighash : String) : Check :=
  match o.record? setid prevout with
  | none => .absent
  | some (r, h) => if r = role ∧ h = sighash then .same else .different r h

/-- The insertion of `SignOnce::record`. -/
def insert (o : SignOnce) (r : SignedRecord) : SignOnce :=
  { o with records := o.records.insert (toLex (r.setid, r.prevout)) (r.role, r.sighash) }

/-- The records, in key order. -/
def recordList (o : SignOnce) : List SignedRecord :=
  o.records.entries.map fun e ↦ ⟨(ofLex e.1).1, (ofLex e.1).2, e.2.1, e.2.2⟩

/-- `SignOnce::list`. -/
def list (o : SignOnce) : SignedRecords := ⟨o.restored, o.recordList, o.pending.keys.length⟩

/-- The file `SignOnce::save` writes. -/
def toFile (o : SignOnce) : SignOnceFile := ⟨format, o.restored, o.recordList, o.pending.keys⟩

/-- The records a file holds, inserted in its order. -/
def ofFile (d : SignOnceFile) : SignOnce where
  restored := d.restored
  records := OrdMap.ofList (d.records.map fun r ↦ (toLex (r.setid, r.prevout), (r.role, r.sighash)))
  pending := OrdMap.ofList (d.pending.map fun h ↦ (h, ()))

/-- The store of a directory without a file. -/
def fresh (restored : Bool) : SignOnce := ⟨restored, .empty, .empty⟩

/-- `SignOnce::load` on a directory, with the outcome of its write: a missing file is written. -/
def load (restoredIfNew : Bool) (w : WriteOutcome) (d : Disk) :
    Except (Halt String) SignOnce × Disk :=
  match d.once with
  | some f =>
    if f.format ≠ format then
      (.error (.error ("signonce.json: unknown format " ++ f.format)), d)
    else (.ok (ofFile f), d)
  | none =>
    let o := fresh restoredIfNew
    let saved := { d with once := some o.toFile }
    match w with
    | .done => (.ok o, saved)
    | .failed e _ => (.error (.error e), d)
    | .cut kept => (.error .panic, if kept = 0 then d else saved)

/-- The first loop of `SignOnce::import`: how many records are new and how many are there, or the
one that differs. -/
def importCounts (o : SignOnce) : List SignedRecord → Except String (Nat × Nat)
  | [] => .ok (0, 0)
  | r :: rs =>
    match o.check r.setid r.prevout r.role r.sighash with
    | .same => (importCounts o rs).map fun c ↦ (c.1, c.2 + 1)
    | .absent => (importCounts o rs).map fun c ↦ (c.1 + 1, c.2)
    | .different role h =>
      .error ("set-sign-once: the wallet already holds a different record for set " ++ r.setid ++
        " prevout " ++ r.prevout ++ " (role " ++ Text.decimal role.toNat ++ ", sighash " ++ h ++
        "); nothing was imported")

/-- The second loop of `SignOnce::import`. -/
def insertAll (o : SignOnce) (rs : List SignedRecord) : SignOnce := rs.foldl insert o

end SignOnce

/-! ## The operations -/

/-- Change the records in memory. -/
def modifyOnce (f : SignOnce → SignOnce) : M Unit := modifyCore fun c ↦ { c with once := f c.once }

/-- `SignOnce::save`. -/
def saveOnce : M (Except String Unit) := do
  let c ← core
  replaceFile fun d ↦ { d with once := some c.once.toFile }

/-- A change in memory, and then the save. -/
def changeOnce (f : SignOnce → SignOnce) : M (Except String Unit) := do
  modifyOnce f
  saveOnce

/-- `SignOnce::record`: in memory first, then on disk. -/
def recordOnce (r : SignedRecord) : M (Except String Unit) := changeOnce fun o ↦ o.insert r

/-- `SignOnce::import`. -/
def importOnce (rs : List SignedRecord) : M (Except String (Nat × Nat)) := do
  match (← core).once.importCounts rs with
  | .error e => return .error e
  | .ok counts =>
    match ← changeOnce fun o ↦ o.insertAll rs with
    | .error e => return .error e
    | .ok () => return .ok counts

/-- `SignOnce::mark_restored`. -/
def markRestored : M (Except String Unit) := do
  if (← core).once.restored then return .ok ()
  else changeOnce fun o ↦ { o with restored := true }

/-- `SignOnce::key_imported`: a member's key sets the restore marker, another is watched. -/
def keyImported (hash : String) (members : Option (List String)) : M (Except String Unit) := do
  if members.any fun m ↦ !m.contains hash then
    if ((← core).once.pending.get? hash).isSome then return .ok ()
    else changeOnce fun o ↦ { o with pending := o.pending.insert hash () }
  else markRestored

/-- `SignOnce::joins_seen`. -/
def joinsSeen (hashes : List String) : M (Except String Unit) := do
  let pending := (← core).once.pending
  let left := pending.filter fun h ↦ !hashes.contains h
  if left.keys.length = pending.keys.length then return .ok ()
  else changeOnce fun o ↦ { o with pending := left, restored := true }

/-- `SignOnce::acknowledge`. -/
def acknowledge : M (Except String Unit) := changeOnce fun o ↦ { o with restored := false }

/-- How a change ends: in memory it is done, and the save ends as a file's replacement does. -/
theorem changeOnce_cases (f : SignOnce → SignOnce) (s : St) :
    changeOnce f s = replaceFile (fun d ↦ { d with once := some (f s.core.once).toFile })
      { s with core := { s.core with once := f s.core.once } } := rfl

/-! ## What the records do -/

namespace SignOnce

variable {a b c o : SignOnce} {s p h : String} {role : UInt8}

/-- Every record of `a` stands in `b`. -/
def Keeps (a b : SignOnce) : Prop :=
  ∀ s p v, a.record? s p = some v → b.record? s p = some v

theorem Keeps.refl (a : SignOnce) : Keeps a a := fun _ _ _ h ↦ h

theorem Keeps.trans (hab : Keeps a b) (hbc : Keeps b c) : Keeps a c :=
  fun s p v h ↦ hbc s p v (hab s p v h)

theorem check_eq_same : o.check s p role h = .same ↔ o.record? s p = some (role, h) := by
  unfold check
  split
  · simp_all
  · rename_i r h' hr
    rw [hr]
    split <;> simp_all

theorem check_eq_absent : o.check s p role h = .absent ↔ o.record? s p = none := by
  unfold check
  split
  · simp_all
  · rename_i r h' hr
    rw [hr]
    split <;> simp_all

theorem record?_insert (o : SignOnce) (r : SignedRecord) (s p : String) :
    (o.insert r).record? s p =
      if r.setid = s ∧ r.prevout = p then some (r.role, r.sighash) else o.record? s p := by
  simp only [record?, insert, OrdMap.get?_insert]
  congr 1
  simp

/-- An insertion over nothing, or over the same record, keeps every record. -/
theorem keeps_insert {r : SignedRecord}
    (hr : o.record? r.setid r.prevout = none ∨
      o.record? r.setid r.prevout = some (r.role, r.sighash)) : Keeps o (o.insert r) := by
  intro s p v hv
  rw [record?_insert]
  split
  · rename_i hk
    obtain ⟨rfl, rfl⟩ := hk
    rcases hr with hr | hr
    · rw [hr] at hv
      cases hv
    · rw [← hv, hr]
  · exact hv

/-- A passed first loop: no record of the import differs from one that is there. -/
theorem importCounts_eq_ok {rs : List SignedRecord} {n : Nat × Nat}
    (hn : o.importCounts rs = .ok n) : ∀ r ∈ rs,
      o.record? r.setid r.prevout = none ∨
        o.record? r.setid r.prevout = some (r.role, r.sighash) := by
  induction rs generalizing n with
  | nil => simp
  | cons r rs ih =>
    simp only [importCounts] at hn
    split at hn
    · rename_i hc
      cases hrs : importCounts o rs with
      | error e => simp [hrs, Except.map] at hn
      | ok m =>
        intro r' hr'
        rcases List.mem_cons.mp hr' with rfl | hr'
        · exact .inr (check_eq_same.mp hc)
        · exact ih hrs r' hr'
    · rename_i hc
      cases hrs : importCounts o rs with
      | error e => simp [hrs, Except.map] at hn
      | ok m =>
        intro r' hr'
        rcases List.mem_cons.mp hr' with rfl | hr'
        · exact .inl (check_eq_absent.mp hc)
        · exact ih hrs r' hr'
    · cases hn

/-- Insertions that agree with a store keep its records, though two of them may be for one pair. -/
theorem keeps_insertAll (a : SignOnce) {rs : List SignedRecord} (hab : Keeps a b)
    (hrs : ∀ r ∈ rs, a.record? r.setid r.prevout = none ∨
      a.record? r.setid r.prevout = some (r.role, r.sighash)) : Keeps a (b.insertAll rs) := by
  induction rs generalizing b with
  | nil => exact hab
  | cons r rs ih =>
    refine ih ?_ fun r' hr' ↦ hrs r' (List.mem_cons_of_mem _ hr')
    intro s p v hv
    rw [record?_insert]
    split
    · rename_i hk
      obtain ⟨rfl, rfl⟩ := hk
      rcases hrs r List.mem_cons_self with hr | hr
      · rw [hr] at hv
        cases hv
      · rw [← hv, hr]
    · exact hab s p v hv

/-- What was written is read back. -/
theorem record?_ofFile_toFile (o : SignOnce) (s p : String) :
    (ofFile o.toFile).record? s p = o.record? s p := by
  have hmap : o.recordList.map (fun r ↦ (toLex (r.setid, r.prevout), (r.role, r.sighash))) =
      o.records.entries := by
    simp [recordList, Function.comp_def]
  simp only [record?, ofFile, toFile, hmap, OrdMap.get?_ofList_entries]

end SignOnce

end Yew.Signer
