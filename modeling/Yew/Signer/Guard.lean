import Yew.Signer.State
import Yew.Util.Record
import Yew.Util.Trace

/-!
# The equivocation guard's log

`attest-signed.jsonl`: one JSON record a line, appended and synced before the signature leaves the
signer.  Loading reads the lines back; a last line that does not parse is taken for an append that
was cut short, and cut off.

An append that lost no more than its newline leaves a line that parses, so the next append goes on
behind it and the line is a record no longer.  As long as every append starts a line and no cut
falls inside a character, every load returns what was acknowledged or loaded before.

The log is read line by line at the start, and a line that is no record is passed over.

## Source

* `yewd/signer/src/attest.rs`: `Guard`, `Guard::load`, `Guard::by_seq`, `Guard::by_key`,
  `Guard::record`
-/

namespace Yew.Signer

open Text Json

/-! ## Records as lines -/

namespace Attested

/-- The fields, as `Serialize` lists them. -/
def fields (r : Attested) : List (String × Leaf) :=
  [("seq", .nat r.seq.toNat), ("pubkey", .str r.pubkey), ("cited_height", .nat r.citedHeight.toNat),
    ("block_hash", .str r.blockHash), ("price_micro_usd", .nat r.priceMicroUsd.toNat),
    ("sig", .str r.sig)]

/-- `serde_json::to_string`. -/
def text (r : Attested) : List Char := renderRecord r.fields

/-- The bytes an append writes. -/
def line (r : Attested) : Bytes := utf8 (r.text ++ ['\n'])

/-- The record of six values. -/
def ofValues (seq pubkey height hash price sig : Json) : Option Attested := do
  let seq ← seq.uint? (2 ^ 16)
  let pubkey ← pubkey.str?
  let height ← height.uint? (2 ^ 32)
  let hash ← hash.str?
  let price ← price.uint? (2 ^ 32)
  let sig ← sig.str?
  some ⟨UInt16.ofNat seq, pubkey, UInt32.ofNat height, hash, UInt32.ofNat price, sig⟩

/-- `Deserialize`: by field name, each exactly once and others ignored, or by position. -/
def ofJson : Json → Option Attested
  | .obj ms =>
    match lookup ms "seq", lookup ms "pubkey", lookup ms "cited_height", lookup ms "block_hash",
      lookup ms "price_micro_usd", lookup ms "sig" with
    | [seq], [pubkey], [height], [hash], [price], [sig] => ofValues seq pubkey height hash price sig
    | _, _, _, _, _, _ => none
  | .arr [seq, pubkey, height, hash, price, sig] => ofValues seq pubkey height hash price sig
  | _ => none

/-- `serde_json::from_str`. -/
def fromStr (l : List Char) : Option Attested := (parse l).bind ofJson

theorem fields_ne_nil (r : Attested) : r.fields ≠ [] := List.cons_ne_nil _ _

theorem ofJson_fields (r : Attested) : ofJson (.obj (toMembers r.fields)) = some r := by
  have hseq : uint? (2 ^ 16) (.num (Nat.toDigits 10 r.seq.toNat)) = some r.seq.toNat :=
    uint?_toDigits r.seq.toNat_lt
  have hheight : uint? (2 ^ 32) (.num (Nat.toDigits 10 r.citedHeight.toNat)) =
      some r.citedHeight.toNat := uint?_toDigits r.citedHeight.toNat_lt
  have hprice : uint? (2 ^ 32) (.num (Nat.toDigits 10 r.priceMicroUsd.toNat)) =
      some r.priceMicroUsd.toNat := uint?_toDigits r.priceMicroUsd.toNat_lt
  simp [-Nat.reducePow, ofJson, fields, toMembers, lookup, Leaf.toJson, ofValues, str?, hseq,
    hheight, hprice]

/-- A record that is written is read back. -/
theorem fromStr_text (r : Attested) : fromStr r.text = some r := by
  rw [fromStr, text, parse_renderRecord r.fields_ne_nil, Option.bind_some, ofJson_fields]

/-- A record with another behind it is not read. -/
theorem fromStr_text_append (r r' : Attested) : fromStr (r.text ++ r'.text) = none := by
  have hws : ws r'.text ≠ [] := by
    rw [text, renderRecord, ws_cons (by decide)]
    exact List.cons_ne_nil _ _
  rw [fromStr, text, parse_renderRecord_append r.fields_ne_nil hws, Option.bind_none]

theorem newline_notMem_text (r : Attested) : '\n' ∉ r.text := newline_notMem_renderRecord _

end Attested

/-! ## The log -/

namespace Guard

/-- `attest::FILE`. -/
def file := "attest-signed.jsonl"

/-- A line that `trim` leaves nothing of. -/
def isBlank (l : List Char) : Bool := (trimChars l).isEmpty

/-- The loop of `Guard::load` over the lines from number `i` on: the records, and the last line if
it has to be cut off. -/
def readLines : Nat → List (List Char) → Except String (List Attested × Option (List Char))
  | _, [] => .ok ([], none)
  | i, l :: ls =>
    if isBlank l then readLines (i + 1) ls
    else
      match Attested.fromStr l with
      | some r => (readLines (i + 1) ls).map fun x ↦ (r :: x.1, x.2)
      | none =>
        if ls = [] then .ok ([], some l)
        else .error (file ++ ": line " ++ decimal (i + 1))

/-- `Guard::load` on the file's bytes, with the outcome of the write that cuts the last line off. -/
def load (w : WriteOutcome) : Option Bytes → Except (Halt String) (List Attested) × Option Bytes
  | none => (.ok [], none)
  | some b =>
    match fromUtf8 b with
    | none => (.error (.error (file ++ ": stream did not contain valid UTF-8")), some b)
    | some t =>
      match readLines 0 (t.splitOn '\n') with
      | .error e => (.error (.error e), some b)
      | .ok (rs, none) => (.ok rs, some b)
      | .ok (rs, some l) =>
        let short := b.take (b.length - (utf8 l).length)
        match w with
        | .done => (.ok rs, some short)
        | .failed e kept =>
          (.error (.error (file ++ ": " ++ e)), some (if kept = 0 then b else short))
        | .cut kept => (.error .panic, some (if kept = 0 then b else short))

/-- How many bytes of an append reach the disk. -/
def arrived (r : Attested) : WriteOutcome → Nat
  | .done => r.line.length
  | .failed _ kept => kept
  | .cut kept => kept

/-- The file behind an append. -/
def written (w : WriteOutcome) (r : Attested) (b : Option Bytes) : Option Bytes :=
  some (b.getD [] ++ r.line.take (arrived r w))

/-- The records in memory behind an append. -/
def recorded (w : WriteOutcome) (r : Attested) (rs : List Attested) : List Attested :=
  if w = .done then rs ++ [r] else rs

/-- `Guard::by_seq`. -/
def bySeq (rs : List Attested) (seq : UInt16) (height : UInt32) (hash : String) :
    Option Attested :=
  rs.find? fun r ↦ r.seq = seq ∧ r.citedHeight = height ∧ r.blockHash = hash

/-- `Guard::by_key`. -/
def byKey (rs : List Attested) (pubkey : String) (height : UInt32) (hash : String) :
    List Attested :=
  rs.filter fun r ↦ r.pubkey = pubkey ∧ r.citedHeight = height ∧ r.blockHash = hash

end Guard

/-- `Guard::record`: nothing is kept in memory unless it is on disk. -/
def recordGuard (r : Attested) : M (Except String Unit) := do
  let w ← nextWrite
  modifyCore fun c ↦ { c with guard := Guard.recorded w r c.guard }
  modifyDisk fun d ↦ { d with guard := Guard.written w r d.guard }
  match w with
  | .done => return .ok ()
  | .failed e _ => return .error (Guard.file ++ ": " ++ e)
  | .cut _ => Proc.throw .crash

/-! ## What a load returns -/

namespace Guard

/-- The characters of whole lines. -/
def wholeText (rs : List Attested) : List Char := rs.flatMap fun r ↦ r.text ++ ['\n']

theorem utf8_wholeText (rs : List Attested) : utf8 (wholeText rs) = rs.flatMap Attested.line := by
  induction rs with
  | nil => rfl
  | cons r rs ih =>
    rw [wholeText, List.flatMap_cons, utf8_append, List.flatMap_cons]
    exact congrArg (r.line ++ ·) ih

/-- Whole lines with a tail behind are split into the lines and the tail. -/
theorem splitOn_wholeText (rs : List Attested) {tail : List Char} (htail : '\n' ∉ tail) :
    (wholeText rs ++ tail).splitOn '\n' = rs.map Attested.text ++ [tail] := by
  induction rs with
  | nil => exact List.splitOn_eq_singleton htail
  | cons r rs ih =>
    have hcons : wholeText (r :: rs) ++ tail = r.text ++ '\n' :: (wholeText rs ++ tail) := by
      simp [wholeText]
    rw [hcons, List.splitOn_append_cons_self, List.splitOn_eq_singleton r.newline_notMem_text, ih]
    rfl

theorem isBlank_brace (t : List Char) : isBlank ('\x7b' :: t) = false := by
  have hne : trimChars ('\x7b' :: t) ≠ [] := by
    unfold trimChars
    rw [List.dropWhile_cons_of_neg (by decide), Ne, List.rdropWhile_eq_nil_iff]
    intro h
    exact absurd (h _ List.mem_cons_self) (by decide)
  simp [isBlank, hne]

theorem isBlank_text (r : Attested) : isBlank r.text = false := isBlank_brace _

/-- What is read of a tail: a record, nothing, or nothing and the tail is cut off. -/
def readTail (tail : List Char) : List Attested × Option (List Char) :=
  if isBlank tail then ([], none)
  else
    match Attested.fromStr tail with
    | some r => ([r], none)
    | none => ([], some tail)

theorem readLines_wholeText (i : Nat) (rs : List Attested) (tail : List Char) :
    readLines i (rs.map Attested.text ++ [tail]) =
      .ok (rs ++ (readTail tail).1, (readTail tail).2) := by
  induction rs generalizing i with
  | nil =>
    rw [List.map_nil, List.nil_append, readLines, readTail]
    split
    · rfl
    · split
      · rfl
      · rfl
  | cons r rs ih =>
    rw [List.map_cons, List.cons_append, readLines, isBlank_text, Attested.fromStr_text, ih]
    rfl

/-- What a file holds: whole lines, and behind them the tail an append was cut to. -/
structure Holds (b : Bytes) (rs : List Attested) (tail : List Char) : Prop where
  bytes : b = rs.flatMap Attested.line ++ utf8 tail
  tail : tail = [] ∨ ∃ r : Attested, tail <+: r.text

variable {b : Bytes} {rs : List Attested} {tail : List Char}

theorem Holds.newline_notMem (h : Holds b rs tail) : '\n' ∉ tail := by
  rcases h.tail with rfl | ⟨r, hr⟩
  · exact List.not_mem_nil
  · exact fun hmem ↦ r.newline_notMem_text (hr.subset hmem)

/-- A load of such a file: the whole lines, and the tail if it is a record. -/
theorem Holds.load (h : Holds b rs tail) :
    load .done (some b) =
      (.ok (rs ++ (readTail tail).1),
        some (if (readTail tail).2 = none then b else rs.flatMap Attested.line)) := by
  have hb : b = utf8 (wholeText rs ++ tail) := by
    rw [h.bytes, utf8_append, utf8_wholeText]
  rw [Guard.load, hb, fromUtf8_utf8]
  dsimp only
  rw [splitOn_wholeText rs h.newline_notMem, readLines_wholeText]
  cases hcut : (readTail tail).2 with
  | none => simp
  | some l =>
    have hl : l = tail := by
      unfold readTail at hcut
      split at hcut
      · cases hcut
      · split at hcut
        · cases hcut
        · exact (Option.some.inj hcut).symm
    subst hl
    simp [utf8_append, utf8_wholeText]

theorem readLines_unterminated (i : Nat) (rs : List Attested) (r r' : Attested) :
    readLines i (rs.map Attested.text ++ [r.text ++ r'.text, []]) =
      .error (file ++ ": line " ++ decimal (i + rs.length + 1)) := by
  induction rs generalizing i with
  | nil =>
    have hblank : isBlank (r.text ++ r'.text) = false := isBlank_brace _
    rw [List.map_nil, List.nil_append, readLines, hblank, Attested.fromStr_text_append]
    rfl
  | cons r₀ rs ih =>
    have hi : i + (r₀ :: rs).length + 1 = i + 1 + rs.length + 1 := by
      rw [List.length_cons]
      omega
    rw [List.map_cons, List.cons_append, readLines, isBlank_text, Attested.fromStr_text, ih, hi]
    rfl

/-- Whole lines are read as they are, whatever the write would have come to. -/
theorem load_lines (w : WriteOutcome) {file : Option Bytes} {rs : List Attested}
    (h : file.getD [] = rs.flatMap Attested.line) : Guard.load w file = (.ok rs, file) := by
  have hread : ∀ b, b = rs.flatMap Attested.line → Guard.load w (some b) = (.ok rs, some b) := by
    intro b hb
    have hsplit := @splitOn_wholeText rs [] List.not_mem_nil
    rw [List.append_nil] at hsplit
    rw [hb, ← utf8_wholeText, Guard.load, fromUtf8_utf8]
    dsimp only
    rw [hsplit, readLines_wholeText]
    simp [readTail, isBlank, trimChars]
  cases file with
  | none =>
    have hnil : (.ok rs, some []) = ((.ok [], some []) : Except (Halt String) _ × Option Bytes) :=
      (hread [] h).symm
    cases hnil
    rfl
  | some b => exact hread b h

/-- A record behind another one without a newline between them: the line is not read, and it is not
the last. -/
theorem load_unterminated (rs : List Attested) (r r' : Attested) (w : WriteOutcome) :
    (Guard.load w (some (rs.flatMap Attested.line ++ utf8 r.text ++ r'.line))).1 =
      .error (.error (file ++ ": line " ++ decimal (rs.length + 1))) := by
  have hb : rs.flatMap Attested.line ++ utf8 r.text ++ r'.line =
      utf8 (wholeText rs ++ ((r.text ++ r'.text) ++ '\n' :: [])) := by
    simp [utf8_append, utf8_wholeText, Attested.line]
  have hmem : '\n' ∉ r.text ++ r'.text := by
    simp [r.newline_notMem_text, r'.newline_notMem_text]
  have hsplit : (wholeText rs ++ ((r.text ++ r'.text) ++ '\n' :: [])).splitOn '\n' =
      rs.map Attested.text ++ [r.text ++ r'.text, []] := by
    rw [← List.append_assoc, List.splitOn_append_cons_self, splitOn_wholeText rs hmem]
    simp
  rw [Guard.load, hb, fromUtf8_utf8]
  dsimp only
  rw [hsplit, readLines_unterminated, Nat.zero_add]

/-! ## Runs of the log -/

/-- The log's file, and the records of the process that has it open. -/
structure Log where
  file : Option Bytes
  records : Option (List Attested)
deriving DecidableEq

/-- What happens to a log. -/
inductive LogEvent where
  /-- An append, cut by a crash after so many bytes of its line if a number is given. -/
  | append (r : Attested) (cut : Option Nat)
  /-- The process is started anew. -/
  | restart
deriving DecidableEq

/-- What is seen of an event. -/
inductive LogAnswer where
  | acknowledged
  | silent
  | loaded (result : Except (Halt String) (List Attested))

/-- The outcome of an append's write. -/
def LogEvent.outcome : Option Nat → WriteOutcome
  | none => .done
  | some kept => .cut kept

/-- One event. -/
def Log.step (s : Log) : LogEvent → LogAnswer × Log
  | .append r cut =>
    match s.records with
    | none => (.silent, s)
    | some rs =>
      let w := LogEvent.outcome cut
      if w = .done then (.acknowledged, ⟨written w r s.file, some (recorded w r rs)⟩)
      else (.silent, ⟨written w r s.file, none⟩)
  | .restart =>
    let x := Guard.load .done s.file
    (.loaded x.1, ⟨x.2, x.1.toOption⟩)

/-- A directory without a log, and no process. -/
def Log.start : Log := ⟨none, none⟩

/-- The next byte begins a line. -/
def AtLineStart (b : Option Bytes) : Prop :=
  ∃ t, fromUtf8 (b.getD []) = some t ∧ (t = [] ∨ t.getLast? = some '\n')

/-- The first bytes of a record's line are whole characters. -/
def AtBoundary (r : Attested) (kept : Nat) : Prop :=
  ∃ n, r.line.take kept = utf8 ((r.text ++ ['\n']).take n)

/-- An append starts a line, and a cut falls between characters. -/
def Clean (s : Log) : LogEvent → Prop
  | .append _ none => AtLineStart s.file
  | .append r (some kept) => kept = 0 ∨ (AtLineStart s.file ∧ AtBoundary r kept)
  | .restart => True

/-- A record that an append acknowledged or a load returned. -/
def Known (h : List (LogEvent × LogAnswer)) (r : Attested) : Prop :=
  (∃ cut, (.append r cut, .acknowledged) ∈ h) ∨ ∃ rs, (.restart, .loaded (.ok rs)) ∈ h ∧ r ∈ rs

/-- Every load has succeeded and returned all that was known before it. -/
def Recovers (h : List (LogEvent × LogAnswer)) : Prop :=
  ∀ h₁ h₂ a, h = h₂ ++ (.restart, a) :: h₁ →
    ∃ rs, a = .loaded (.ok rs) ∧ ∀ r, Known h₁ r → r ∈ rs

theorem known_cons {h : List (LogEvent × LogAnswer)} {x : LogEvent × LogAnswer} {r : Attested} :
    Known (x :: h) r ↔
      ((∃ cut, x = (.append r cut, .acknowledged)) ∨
        ∃ rs, x = (.restart, .loaded (.ok rs)) ∧ r ∈ rs) ∨ Known h r := by
  simp only [Known, List.mem_cons]
  constructor
  · rintro (⟨cut, rfl | hc⟩ | ⟨rs, rfl | hx, hr⟩)
    · exact .inl (.inl ⟨cut, rfl⟩)
    · exact .inr (.inl ⟨cut, hc⟩)
    · exact .inl (.inr ⟨rs, rfl, hr⟩)
    · exact .inr (.inr ⟨rs, hx, hr⟩)
  · rintro ((⟨cut, rfl⟩ | ⟨rs, rfl, hr⟩) | ⟨cut, hc⟩ | ⟨rs, hx, hr⟩)
    · exact .inl ⟨cut, .inl rfl⟩
    · exact .inr ⟨rs, .inl rfl, hr⟩
    · exact .inl ⟨cut, .inr hc⟩
    · exact .inr ⟨rs, .inr hx, hr⟩

/-- The file is whole lines and a tail, everything known is in it, and a running process has seen
no torn tail. -/
structure Inv (h : List (LogEvent × LogAnswer)) (s : Log) : Prop where
  holds : ∃ rs tail, Holds (s.file.getD []) rs tail ∧
    (∀ r, Known h r → r ∈ rs ++ (readTail tail).1) ∧
    (s.records.isSome → (readTail tail).2 = none)
  recovers : Recovers h

theorem Holds.eq_nil_of_atLineStart {file : Option Bytes} (h : Holds (file.getD []) rs tail)
    (hs : AtLineStart file) : tail = [] := by
  obtain ⟨t, ht, hlast⟩ := hs
  rw [h.bytes, ← utf8_wholeText, ← utf8_append, fromUtf8_utf8] at ht
  obtain rfl := Option.some.inj ht
  by_contra hne
  rcases hlast with hnil | hlast
  · exact hne (List.append_eq_nil_iff.mp hnil).2
  · rw [List.getLast?_append_of_ne_nil _ hne] at hlast
    exact h.newline_notMem (List.mem_of_getLast? hlast)

/-- Behind an append that starts a line and is cut between characters stand the whole lines, the
record among them, or its beginning as a tail. -/
theorem Holds.append {file : Option Bytes} {r : Attested} {kept : Nat}
    (h : Holds (file.getD []) rs []) (hb : AtBoundary r kept) :
    ∃ rs' tail', Holds (file.getD [] ++ r.line.take kept) rs' tail' ∧ rs ⊆ rs' := by
  obtain ⟨n, hn⟩ := hb
  have hbytes : file.getD [] = rs.flatMap Attested.line := by
    rw [h.bytes]
    exact List.append_nil _
  by_cases hlen : n ≤ r.text.length
  · refine ⟨rs, r.text.take n, ⟨?_, .inr ⟨r, List.take_prefix n r.text⟩⟩, List.Subset.refl rs⟩
    rw [hn, hbytes, List.take_append_of_le_length hlen]
  · refine ⟨rs ++ [r], [], ⟨?_, .inl rfl⟩, List.subset_append_left rs [r]⟩
    have hall : (r.text ++ ['\n']).take n = r.text ++ ['\n'] := by
      rw [List.take_of_length_le]
      rw [List.length_append, List.length_singleton]
      omega
    rw [hn, hbytes, hall, List.flatMap_append]
    simp [Attested.line, utf8]

theorem recovers_cons {h : List (LogEvent × LogAnswer)} {x : LogEvent × LogAnswer}
    (hh : Recovers h)
    (hx : x.1 = .restart → ∃ rs, x.2 = .loaded (.ok rs) ∧ ∀ r, Known h r → r ∈ rs) :
    Recovers (x :: h) := by
  intro h₁ h₂ a heq
  cases h₂ with
  | nil =>
    cases heq
    exact hx rfl
  | cons y h₂ =>
    cases heq
    exact hh _ _ _ rfl

theorem readTail_nil : readTail [] = ([], none) := rfl

theorem readTail_fst_of_torn (h : (readTail tail).2 ≠ none) : (readTail tail).1 = [] := by
  unfold readTail at h ⊢
  split at h
  · exact absurd rfl h
  · rename_i hblank
    rw [if_neg hblank]
    split at h
    · exact absurd rfl h
    · rfl

/-- A load returns the whole lines and a tail that is a record, and leaves no torn tail. -/
theorem load_of_holds {file : Option Bytes} (h : Holds (file.getD []) rs tail) :
    (Guard.load .done file).1 = .ok (rs ++ (readTail tail).1) ∧
      ∃ tail', Holds ((Guard.load .done file).2.getD []) rs tail' ∧
        (readTail tail').1 = (readTail tail).1 ∧ (readTail tail').2 = none := by
  have hload := h.load
  have hopen : (Guard.load .done file).1 = (Guard.load .done (some (file.getD []))).1 ∧
      (Guard.load .done file).2.getD [] = (Guard.load .done (some (file.getD []))).2.getD [] := by
    cases file with
    | none => exact ⟨rfl, rfl⟩
    | some b => exact ⟨rfl, rfl⟩
  rw [hopen.1, hopen.2, hload]
  refine ⟨rfl, ?_⟩
  by_cases hcut : (readTail tail).2 = none
  · refine ⟨tail, ?_, rfl, hcut⟩
    simp only [hcut, if_true, Option.getD_some]
    exact h
  · refine ⟨[], ⟨?_, .inl rfl⟩, ?_, rfl⟩
    · simp only [hcut, if_false, Option.getD_some]
      exact (List.append_nil _).symm
    · rw [readTail_fst_of_torn hcut, readTail_nil]

theorem inv_restart {h : List (LogEvent × LogAnswer)} {s : Log} (hi : Inv h s) :
    Inv ((.restart, (s.step .restart).1) :: h) (s.step .restart).2 := by
  obtain ⟨⟨rs, tail, hholds, hknown, -⟩, hrec⟩ := hi
  obtain ⟨hok, tail', hholds', hfst, hsnd⟩ := load_of_holds hholds
  have hans : (s.step .restart).1 = .loaded (.ok (rs ++ (readTail tail).1)) :=
    congrArg LogAnswer.loaded hok
  constructor
  · refine ⟨rs, tail', hholds', ?_, fun _ ↦ hsnd⟩
    intro r hr
    rw [hfst]
    rcases known_cons.mp hr with (⟨cut, hc⟩ | ⟨rs', hx, hr⟩) | hr
    · cases congrArg Prod.fst hc
    · rw [hans] at hx
      cases hx
      exact hr
    · exact hknown r hr
  · exact recovers_cons hrec fun _ ↦ ⟨_, hans, hknown⟩

theorem inv_append {h : List (LogEvent × LogAnswer)} {s : Log} {r : Attested} {cut : Option Nat}
    (hi : Inv h s) (hc : Clean s (.append r cut)) :
    Inv ((.append r cut, (s.step (.append r cut)).1) :: h) (s.step (.append r cut)).2 := by
  obtain ⟨⟨rs, tail, hholds, hknown, hrun⟩, hrec⟩ := hi
  refine ⟨?_, recovers_cons hrec fun hx ↦ by cases hx⟩
  cases hmem : s.records with
  | none =>
    have hstep : s.step (.append r cut) = (.silent, s) := by simp [Log.step, hmem]
    rw [hstep]
    refine ⟨rs, tail, hholds, ?_, by simp [hmem]⟩
    intro r' hr'
    rcases known_cons.mp hr' with (⟨_, hx⟩ | ⟨_, hx, _⟩) | hr'
    · cases hx
    · cases hx
    · exact hknown r' hr'
  | some mem =>
    cases cut with
    | none =>
      -- the whole line arrives
      obtain rfl := hholds.eq_nil_of_atLineStart hc
      have hstep : s.step (.append r none) =
          (.acknowledged, ⟨written .done r s.file, some (recorded .done r mem)⟩) := by
        simp [Log.step, hmem, LogEvent.outcome]
      rw [hstep]
      refine ⟨rs ++ [r], [], ⟨?_, .inl rfl⟩, ?_, fun _ ↦ rfl⟩
      · have hbytes := hholds.bytes
        simp [written, arrived, hbytes, utf8]
      · intro r' hr'
        rw [readTail_nil, List.append_nil] at hknown ⊢
        rcases known_cons.mp hr' with (⟨_, hx⟩ | ⟨_, hx, _⟩) | hr'
        · cases hx
          exact List.mem_append_right _ (List.mem_singleton.mpr rfl)
        · cases hx
        · exact List.mem_append_left _ (hknown r' hr')
    | some kept =>
      have hstep : s.step (.append r (some kept)) =
          (.silent, ⟨written (.cut kept) r s.file, none⟩) := by
        simp [Log.step, hmem, LogEvent.outcome]
      have hold : ∀ r', Known ((.append r (some kept), .silent) :: h) r' → Known h r' := by
        intro r' hr'
        rcases known_cons.mp hr' with (⟨_, hx⟩ | ⟨_, hx, _⟩) | hr'
        · cases hx
        · cases hx
        · exact hr'
      rw [hstep]
      rcases hc with rfl | ⟨hstart, hbound⟩
      · refine ⟨rs, tail, ?_, fun r' hr' ↦ hknown r' (hold r' hr'), by simp⟩
        simpa [written, arrived] using hholds
      · obtain rfl := hholds.eq_nil_of_atLineStart hstart
        obtain ⟨rs', tail', hholds', hsub⟩ := hholds.append hbound
        refine ⟨rs', tail', hholds', ?_, by simp⟩
        intro r' hr'
        have := hknown r' (hold r' hr')
        rw [readTail_nil, List.append_nil] at this
        exact List.mem_append_left _ (hsub this)

theorem inv_start : Inv [] Log.start where
  holds := ⟨[], [], ⟨rfl, .inl rfl⟩, by simp [Known], fun _ ↦ rfl⟩
  recovers := by
    intro h₁ h₂ a heq
    cases h₂ <;> cases heq

/-- Whatever crashes cut appends short: as long as every append starts a line and no cut falls
inside a character, each load succeeds and returns every record that was acknowledged, or loaded,
before it. -/
theorem load_of_run {h : List (LogEvent × LogAnswer)} {s : Log}
    (t : Trace Log.step Clean Log.start h s) : Recovers h := by
  refine (t.invariant inv_start ?_ : Inv h s).recovers
  intro h s e hi hc
  cases e with
  | append r cut => exact inv_append hi hc
  | restart => exact inv_restart hi

theorem atBoundary_take (r : Attested) (n : Nat) :
    AtBoundary r (utf8 ((r.text ++ ['\n']).take n)).length := by
  refine ⟨n, ?_⟩
  have hline : r.line = utf8 ((r.text ++ ['\n']).take n) ++ utf8 ((r.text ++ ['\n']).drop n) := by
    rw [← utf8_append, List.take_append_drop, Attested.line]
  rw [hline, List.take_left]

theorem atLineStart_line (r : Attested) : AtLineStart (some r.line) :=
  ⟨r.text ++ ['\n'], fromUtf8_utf8 _, .inr List.getLast?_concat⟩

/-- Two records of one key. -/
def sampleFirst : Attested := ⟨0, "02aa", 10, "bb", 5, "00"⟩
@[inherit_doc sampleFirst]
def sampleSecond : Attested := ⟨1, "02aa", 11, "cc", 6, "00"⟩

/-- The second append is cut behind so many characters. -/
def secondCut (n : Nat) : List LogEvent :=
  [.restart, .append sampleFirst none,
    .append sampleSecond (some (utf8 ((sampleSecond.text ++ ['\n']).take n)).length), .restart]

theorem load_of_run_secondCut : Recovers (Trace.run Log.step Log.start (secondCut 3)).1 := by
  have hfile : AtLineStart (written .done sampleFirst none) := by
    rw [written, arrived, List.take_length]
    exact atLineStart_line sampleFirst
  have hclean : Trace.Guarded Log.step Clean Log.start (secondCut 3) :=
    ⟨trivial, ⟨[], rfl, .inl rfl⟩, .inr ⟨hfile, atBoundary_take _ 3⟩, trivial, trivial⟩
  exact load_of_run (Trace.trace_run hclean)

theorem line_take (r : Attested) : r.line.take (r.line.length - 1) = utf8 r.text := by
  have hline : r.line = utf8 r.text ++ [0x0a] := by
    rw [Attested.line, utf8_append]
    rfl
  rw [hline]
  simp

/-- An append that loses its newline alone, a restart, an append and a restart. -/
def newlineLost (r r' : Attested) : List LogEvent :=
  [.restart, .append r (some (r.line.length - 1)), .restart, .append r' none, .restart]

/-- The append behind the lost newline is acknowledged, and the load behind it fails. -/
theorem run_newlineLost (r r' : Attested) :
    ∃ h s, Trace.run Log.step Log.start (newlineLost r r') =
      ((.restart, .loaded (.error (.error (file ++ ": line 1")))) ::
        (.append r' none, .acknowledged) :: h, s) := by
  have hholds : Holds (utf8 r.text) [] r.text := ⟨rfl, .inr ⟨r, List.prefix_refl _⟩⟩
  have hread : readTail r.text = ([r], none) := by
    rw [readTail, isBlank_text, Attested.fromStr_text]
    rfl
  have h₂ : Log.step ⟨none, some []⟩ (.append r (some (r.line.length - 1))) =
      (.silent, ⟨some (utf8 r.text), none⟩) := by
    simp [Log.step, LogEvent.outcome, written, arrived, line_take]
  have h₃ : Log.step ⟨some (utf8 r.text), none⟩ .restart =
      (.loaded (.ok [r]), ⟨some (utf8 r.text), some [r]⟩) := by
    simp [Log.step, hholds.load, hread, Except.toOption]
  have h₄ : Log.step ⟨some (utf8 r.text), some [r]⟩ (.append r' none) =
      (.acknowledged, ⟨some (utf8 r.text ++ r'.line), some [r, r']⟩) := by
    simp [Log.step, LogEvent.outcome, written, arrived, recorded]
  have h₅ : (Log.step ⟨some (utf8 r.text ++ r'.line), some [r, r']⟩ .restart).1 =
      .loaded (.error (.error (file ++ ": line 1"))) :=
    congrArg LogAnswer.loaded (load_unterminated [] r r' .done)
  have h₁ : Log.step Log.start .restart = (.loaded (.ok []), ⟨none, some []⟩) := rfl
  simp only [Trace.run, newlineLost, Trace.runFrom, h₁, h₂, h₃, h₄, h₅]
  exact ⟨_, _, rfl⟩

/-- The newline of the first record is lost. -/
def sampleLost : List (LogEvent × LogAnswer) × Log :=
  Trace.run Log.step Log.start (newlineLost sampleFirst sampleSecond)

theorem not_recovers_sampleLost :
    Trace Log.step (fun _ _ ↦ True) Log.start sampleLost.1 sampleLost.2 ∧
      (.append sampleSecond none, .acknowledged) ∈ sampleLost.1 ∧ ¬ Recovers sampleLost.1 := by
  obtain ⟨h, s, hx⟩ := run_newlineLost sampleFirst sampleSecond
  have hx : sampleLost = _ := hx
  refine ⟨Trace.trace_run (Trace.guarded_true _ _ _), ?_, ?_⟩
  · rw [hx]
    simp
  · rw [hx]
    intro hrec
    obtain ⟨rs, hrs, -⟩ := hrec _ [] _ rfl
    cases hrs

end Guard

end Yew.Signer
