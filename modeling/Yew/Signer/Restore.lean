import Yew.Signer.OnceRuns
import Yew.Signer.AttestRuns

/-!
# Backups and their restore

A backup is a copy of the signer's files.  To restore it is to put them back, one by one, over
whatever the directory has by then: the sign-once records and the log of attestations become those
of the backup.  With `salvage` the sign-once marker is set behind it.

The machine is the signer's, with a shelf of the backups taken so far.  A restore is run by the
wallet before it starts a signer, so that no process runs behind it.

The function is `restore` of `yewd/signer/src/walletio.rs`.

## Source

* `yewd/signer/src/walletio.rs`: `restore`
-/

namespace Yew.Signer

open Tx Keys Proto Proc SignOnce

/-! ## The restore -/

/-- The files of `BACKUP_FILES`, in its order: whether the backup has the file, and the directory
with what the backup has in its place. -/
def backupFiles (b : Disk) : List (Bool × (Disk → Disk)) :=
  [(b.seed.isSome, fun d ↦ { d with seed := b.seed }),
    (b.publicCache.isSome, fun d ↦ { d with publicCache := b.publicCache }),
    (b.imported.isSome, fun d ↦ { d with imported := b.imported }),
    (b.pqImported.isSome, fun d ↦ { d with pqImported := b.pqImported }),
    (b.once.isSome, fun d ↦ { d with once := b.once }),
    (b.guard.isSome, fun d ↦ { d with guard := b.guard })]

/-- The loop of `restore`, with the outcomes of its writes; it returns those that are left.  A file
that the backup lacks is removed, and that it cannot be is not noticed. -/
def restoreFiles : List (Bool × (Disk → Disk)) → List WriteOutcome → Disk →
    Except (Halt String) (List WriteOutcome) × Disk
  | [], ws, d => (.ok ws, d)
  | (present, put) :: fs, ws, d =>
    match ws.headD .done with
    | .done => restoreFiles fs ws.tail (put d)
    | .failed e _ => if present then (.error (.error e), d) else restoreFiles fs ws.tail d
    | .cut kept => (.error .panic, if kept = 0 then d else put d)

/-- `mark_restored` on a directory that no process has open. -/
def markDisk (o : SignOnce) (w : WriteOutcome) (d : Disk) : Except (Halt String) Unit × Disk :=
  let marked := { d with once := some { o with restored := true }.toFile }
  if o.restored then (.ok (), d)
  else match w with
    | .done => (.ok (), marked)
    | .failed e _ => (.error (.error e), d)
    | .cut kept => (.error .panic, if kept = 0 then d else marked)

/-- `restore` of a backup. -/
def restore (b : Disk) (salvage : Bool) (ws : List WriteOutcome) (d : Disk) :
    Except (Halt String) Unit × Disk :=
  match restoreFiles (backupFiles b) ws d with
  | (.error e, d) => (.error e, d)
  | (.ok ws, d) =>
    if salvage then
      -- only a missing file is written by the load
      let left := if d.once.isNone then ws.tail else ws
      match SignOnce.load false (ws.headD .done) d with
      | (.error e, d) => (.error e, d)
      | (.ok o, d) => markDisk o (left.headD .done) d
    else (.ok (), d)

/-! ## The machine -/

/-- The signer and the backups taken of it, the latest first. -/
structure Shelf where
  world : World
  backups : List Disk

/-- What happens to a shelf. -/
inductive ShelfEvent where
  | signer (e : Event)
  /-- A restore of the backup at a place of the shelf, with the outcomes of its writes. -/
  | restore (i : Nat) (salvage : Bool) (writes : List WriteOutcome)

/-- What is seen of it. -/
inductive ShelfAnswer where
  | signer (a : Answer)
  | restored (result : Except (Halt String) Unit)
  /-- The shelf has no such backup. -/
  | missing

/-- A backup that was written. -/
def isBackup : Event → Answer → Bool
  | .request _ _ _ (.backup _), .response (.written _) => true
  | _, _ => false

section

variable (C : Crypto) (L : Sapling.Lib)

/-- The files a backup carries, those that are text. -/
def backupOf (d : Disk) : Disk :=
  { d with guard := d.guard.filter fun b ↦ (Text.fromUtf8 b).isSome }

/-- One event.  A backup holds the files as the request found them, which it leaves as they are. -/
def Shelf.step (network : Network) (s : Shelf) : ShelfEvent → ShelfAnswer × Shelf
  | .signer e =>
    let x := s.world.step C L network e
    (.signer x.1, ⟨x.2, if isBackup e x.1 then backupOf s.world.disk :: s.backups else s.backups⟩)
  | .restore i salvage ws =>
    match s.backups[i]? with
    | none => (.missing, s)
    | some b =>
      let x := restore b salvage ws s.world.disk
      (.restored x.1, ⟨⟨none, x.2⟩, s.backups⟩)

end

/-- The signer before its first start, and no backup. -/
def Shelf.start (seed : SeedFile) : Shelf := ⟨World.start seed, []⟩

/-- The set signatures an answer carries. -/
def shelfSetFact : ShelfEvent × ShelfAnswer → Option SetFact
  | (.signer e, .signer a) => setFact (e, a)
  | _ => none

/-- The price an answer states. -/
def shelfPriceFact : ShelfEvent × ShelfAnswer → Option PriceFact
  | (.signer e, .signer a) => priceFact (e, a)
  | _ => none

end Yew.Signer
