import Yew.Facade.Filter
import Yew.Util.Base64
import Yew.Util.Decimal

/-!
# Who reaches the façade

A request is let in by its peer's address, its method, its credentials and its size, in that order;
only then is its body dispatched.  Subnets are compared as masked words, and an IPv4 peer may come as
an IPv6 one.

What the HTTP library does is left out: a request comes with its head read, and with the number of
bytes its body was announced or found to have.  The `Authorization` header is compared in constant
time in the source; here it is compared.

## Source

* `yewd/facade/src/allowip.rs`: `Net`, `AllowIp`, `bits`, `prefix_mask`, `AllowIp::parse`,
  `AllowIp::allows`
* `yewd/facade/src/auth.rs`: `Credentials`, `eq_ct`, `Credentials::check`, `basic_header`
* `yewd/facade/src/server.rs`: `Facade::handle`, `Facade::Answer`, `serve`
-/

namespace Yew.Facade

open Text

/-! ## Addresses -/

/-- `IpAddr`. -/
inductive IpAddr where
  | v4 (a : BitVec 32)
  | v6 (a : BitVec 128)
deriving DecidableEq

/-- `Ipv6Addr::to_ipv4_mapped`. -/
def toIpv4Mapped (a : BitVec 128) : Option (BitVec 32) :=
  if a >>> 32 = 0xFFFF#128 then some (a.setWidth 32) else none

namespace IpAddr

/-- An address with the IPv4 one in it taken out. -/
def unmapped : IpAddr → IpAddr
  | v4 a => v4 a
  | v6 a => match toIpv4Mapped a with
    | some b => v4 b
    | none => v6 a

/-- `IpAddr::is_loopback`. -/
def isLoopback : IpAddr → Bool
  | v4 a => a >>> 24 = 127#32
  | v6 a => a = 1#128

/-- `bits`: the word, and whether it is an IPv4 one. -/
def bits : IpAddr → BitVec 128 × Bool
  | v4 a => (a.setWidth 128, true)
  | v6 a => match toIpv4Mapped a with
    | some b => (b.setWidth 128, true)
    | none => (a, false)

/-- The number of bits of an address. -/
def width (ip : IpAddr) : Nat := if ip.bits.2 then 32 else 128

end IpAddr

/-- `prefix_mask`. -/
def prefixMask (len width : Nat) : Option (BitVec 128) :=
  if width < len then none
  else
    let full : BitVec 128 := if width = 128 then BitVec.allOnes 128 else (1#128 <<< width) - 1#128
    some (if len = 0 then 0#128 else full &&& ~~~((1#128 <<< (width - len)) - 1#128))

/-- `Net`. -/
structure Net where
  addr : BitVec 128
  mask : BitVec 128
  v4 : Bool
deriving DecidableEq

section AllowIp

-- how the standard library reads the text of an address
variable (parseIp : String → Option IpAddr)

/-- An entry as an address and what follows its slash. -/
def splitEntry (e : String) : String × Option String :=
  match Decimal.splitOnce (· = '/') e.toList with
  | some (a, m) => (String.ofList a, some (String.ofList m))
  | none => (e, none)

/-- The mask of an entry. -/
def entryMask (ip : IpAddr) : Option String → Option (BitVec 128)
  | none => prefixMask ip.width ip.width
  | some m =>
    match parseU32 m with
    | some len => prefixMask len.toNat ip.width
    | none =>
      match parseIp m with
      | some mask => if mask.bits.2 = ip.bits.2 then some mask.bits.1 else none
      | none => none

/-- One entry of `-rpcallowip`. -/
def parseEntry (e : String) : Except String Net :=
  match parseIp (splitEntry e).1 with
  | none => .error ("-rpcallowip=" ++ e ++ " is not an address or subnet")
  | some ip =>
    match entryMask parseIp ip (splitEntry e).2 with
    | none => .error ("-rpcallowip=" ++ e ++ " has a bad prefix or netmask")
    | some mask => .ok ⟨ip.bits.1 &&& mask, mask, ip.bits.2⟩

/-- `AllowIp::parse`. -/
def parseAllowIp (entries : List String) : Except String (List Net) :=
  entries.mapM (parseEntry parseIp)

end AllowIp

/-- `AllowIp::allows`. -/
def allows (nets : List Net) (peer : IpAddr) : Bool :=
  let peer := peer.unmapped
  peer.isLoopback || nets.any fun n ↦ n.v4 = peer.bits.2 && peer.bits.1 &&& n.mask = n.addr

/-! ## Credentials -/

/-- `eq_ct`. -/
def eqCt (a b : Bytes) : Bool :=
  if a.length ≠ b.length then false
  else (a.zip b).foldl (fun acc p ↦ acc ||| (p.1 ^^^ p.2)) 0 = 0

/-- `Credentials::check`. -/
def checkCredentials (accepted : List Bytes) (header : Option Bytes) : Bool :=
  match header.bind fromUtf8 with
  | none => false
  | some h =>
    if "Basic ".toList.isPrefixOf h then
      match Base64.decode (trimChars (h.drop 6)) with
      | none => false
      | some decoded => accepted.foldl (fun ok a ↦ eqCt a decoded || ok) false
    else false

/-! ## The request -/

/-- `MAX_BODY`. -/
def maxBody : Nat := 32 * 1024 * 1024

/-- A request: its peer, whether it is a POST, its authorization, its path and its body. -/
structure HttpRequest where
  peer : IpAddr
  post : Bool
  authorization : Option Bytes
  path : String
  body : Bytes

/-- An answer: a bare status, or a reply. -/
inductive HttpReply where
  | plain (status : Nat) (text : String)
  | reply (r : Reply)

/-- What lets requests in. -/
structure Door where
  nets : List Net
  accepted : List Bytes

variable {σ : Type} (T : Tables) (cfg : Config) (O : Outside σ)

/-- The dispatch of a request that was let in. -/
def answer (r : HttpRequest) (d : Desk σ) : HttpReply × Desk σ :=
  match dispatch T cfg O r.path r.body d with
  | (.ok x, d') => (.reply x, d')
  | (.error x, d') => (.reply x, d')

/-- `handle`. -/
def handle (door : Door) (r : HttpRequest) (d : Desk σ) : HttpReply × Desk σ :=
  if !allows door.nets r.peer then (.plain 403 "", d)
  else if !r.post then (.plain 405 "JSONRPC server handles only POST requests", d)
  else if !checkCredentials door.accepted r.authorization then (.plain 401 "", d)
  else if maxBody < r.body.length then (.plain 413 "", d)
  else answer T cfg O r d

/-- Requests, one after another. -/
def serve (door : Door) : List HttpRequest → Desk σ → List HttpReply × Desk σ
  | [], d => ([], d)
  | r :: rs, d =>
    let x := handle T cfg O door r d
    let y := serve door rs x.2
    (x.1 :: y.1, y.2)

/-! ## Masks -/

/-- Two words have the same bits where the mask has ones. -/
def AgreeUnder (mask a b : BitVec 128) : Prop :=
  ∀ i, mask.getLsbD i = true → a.getLsbD i = b.getLsbD i

/-- Two words of `w` bits have the same leading ones. -/
def AgreeLeading (w len : Nat) (a b : BitVec 128) : Prop :=
  a.toNat / 2 ^ (w - len) = b.toNat / 2 ^ (w - len)

theorem and_eq_and_iff (mask a b : BitVec 128) :
    a &&& mask = b &&& mask ↔ AgreeUnder mask a b := by
  constructor
  · intro h i hi
    have hbit := congrArg (fun x : BitVec 128 ↦ x.getLsbD i) h
    simpa [hi] using hbit
  · intro h
    refine BitVec.eq_of_getLsbD_eq fun i _ ↦ ?_
    rw [BitVec.getLsbD_and, BitVec.getLsbD_and]
    cases hi : mask.getLsbD i with
    | false => simp
    | true => rw [h i hi]

/-- The word of ones below a bit. -/
theorem getLsbD_ones {k : Nat} (hk : k < 128) (i : Nat) :
    ((1#128 <<< k) - 1#128).getLsbD i = decide (i < k) := by
  have hpow : 2 ^ k < 2 ^ 128 := Nat.pow_lt_pow_right (by decide) hk
  have hone : 0 < 2 ^ k := Nat.two_pow_pos k
  have hnat : ((1#128 <<< k) - 1#128).toNat = 2 ^ k - 1 := by
    rw [BitVec.toNat_sub, BitVec.toNat_shiftLeft]
    simp only [BitVec.toNat_ofNat, Nat.shiftLeft_eq]
    rw [show (1 % 2 ^ 128) = 1 from rfl, Nat.one_mul, Nat.mod_eq_of_lt hpow]
    omega
  rw [BitVec.getLsbD, hnat, Nat.testBit_two_pow_sub_one]

/-- The bits of a mask: the leading ones of the width. -/
theorem getLsbD_prefixMask {len width : Nat} (hwidth : width = 32 ∨ width = 128) {mask : BitVec 128}
    (h : prefixMask len width = some mask) {i : Nat} (hi : i < 128) :
    len ≤ width ∧ mask.getLsbD i = decide (width - len ≤ i ∧ i < width) := by
  unfold prefixMask at h
  split at h
  · cases h
  · rename_i hlen
    refine ⟨by omega, ?_⟩
    obtain rfl := Option.some.inj h
    by_cases hzero : len = 0
    · subst hzero
      simp
    · rw [if_neg hzero, BitVec.getLsbD_and, BitVec.getLsbD_not, getLsbD_ones (by omega)]
      have hfull : (if width = 128 then BitVec.allOnes 128 else (1#128 <<< width) - 1#128).getLsbD i =
          decide (i < width) := by
        rcases hwidth with rfl | rfl
        · rw [if_neg (by decide), getLsbD_ones (by decide)]
        · rw [if_pos rfl, BitVec.getLsbD_allOnes]
      rw [hfull]
      by_cases hlow : width - len ≤ i
      · simp [hi, hlow]
      · simp [hlow, show i < width - len from by omega]

/-- Under the mask of a prefix two words are the same if their leading bits are. -/
theorem agreeUnder_prefixMask {len width : Nat} (hwidth : width = 32 ∨ width = 128)
    {mask a b : BitVec 128} (h : prefixMask len width = some mask) (ha : a.toNat < 2 ^ width)
    (hb : b.toNat < 2 ^ width) : AgreeUnder mask a b ↔ AgreeLeading width len a b := by
  constructor
  · intro hunder
    refine Nat.eq_of_testBit_eq fun j ↦ ?_
    rw [Nat.testBit_div_two_pow, Nat.testBit_div_two_pow]
    by_cases hj : width - len + j < width
    · have hi : j + (width - len) < 128 := by omega
      refine hunder _ ?_
      rw [(getLsbD_prefixMask hwidth h hi).2, decide_eq_true_eq]
      omega
    · have hpow : 2 ^ width ≤ 2 ^ (j + (width - len)) := Nat.pow_le_pow_right (by decide) (by omega)
      rw [Nat.testBit_lt_two_pow (ha.trans_le hpow), Nat.testBit_lt_two_pow (hb.trans_le hpow)]
  · intro hleading i hi
    have hlt : i < 128 := BitVec.lt_of_getLsbD hi
    rw [(getLsbD_prefixMask hwidth h hlt).2, decide_eq_true_eq] at hi
    have hbit := congrArg (fun x ↦ x.testBit (i - (width - len))) hleading
    simp only [Nat.testBit_div_two_pow] at hbit
    rw [Nat.sub_add_cancel hi.1] at hbit
    exact hbit

theorem IpAddr.bits_lt (ip : IpAddr) : ip.bits.1.toNat < 2 ^ ip.width := by
  have hfour (a : BitVec 32) : (a.setWidth 128).toNat < 2 ^ 32 := by
    rw [BitVec.toNat_setWidth]
    exact (Nat.mod_le _ _).trans_lt a.isLt
  cases ip with
  | v4 a => exact hfour a
  | v6 a =>
    cases hmapped : toIpv4Mapped a with
    | some b => simpa [IpAddr.width, IpAddr.bits, hmapped] using hfour b
    | none => simpa [IpAddr.width, IpAddr.bits, hmapped] using a.isLt

theorem IpAddr.width_cases (ip : IpAddr) : ip.width = 32 ∨ ip.width = 128 := by
  unfold IpAddr.width
  split
  · exact .inl rfl
  · exact .inr rfl

/-! ## The allow list -/

/-- The addresses that an entry stands for: one address, those with its leading bits, or those with
its bits under a netmask. -/
def InEntry (parseIp : String → Option IpAddr) (e : String) (peer : IpAddr) : Prop :=
  ∃ ip, parseIp (splitEntry e).1 = some ip ∧ ip.bits.2 = peer.bits.2 ∧
    match (splitEntry e).2 with
    | none => peer.bits.1 = ip.bits.1
    | some m =>
      match parseU32 m with
      | some len => AgreeLeading ip.width len.toNat peer.bits.1 ip.bits.1
      | none => ∃ mask, parseIp m = some mask ∧ AgreeUnder mask.bits.1 peer.bits.1 ip.bits.1

variable {parseIp : String → Option IpAddr}

theorem inEntry_iff {e : String} {n : Net} (h : parseEntry parseIp e = .ok n) (peer : IpAddr) :
    (n.v4 = peer.bits.2 ∧ peer.bits.1 &&& n.mask = n.addr) ↔ InEntry parseIp e peer := by
  unfold parseEntry at h
  cases hip : parseIp (splitEntry e).1 with
  | none => simp [hip] at h
  | some ip =>
    simp only [hip] at h
    cases hmask : entryMask parseIp ip (splitEntry e).2 with
    | none => simp [hmask] at h
    | some mask =>
      simp only [hmask, Except.ok.injEq] at h
      subst h
      rw [and_eq_and_iff]
      unfold InEntry
      simp only [hip, Option.some.injEq, exists_eq_left']
      refine and_congr_right fun hfamily ↦ ?_
      have hpeer : peer.bits.1.toNat < 2 ^ ip.width := by
        have hwidth : ip.width = peer.width := by rw [IpAddr.width, IpAddr.width, hfamily]
        rw [hwidth]
        exact peer.bits_lt
      unfold entryMask at hmask
      cases hrest : (splitEntry e).2 with
      | none =>
        simp only [hrest] at hmask ⊢
        rw [agreeUnder_prefixMask ip.width_cases hmask hpeer ip.bits_lt, AgreeLeading, Nat.sub_self,
          Nat.pow_zero, Nat.div_one, Nat.div_one, BitVec.toNat_inj]
      | some m =>
        simp only [hrest] at hmask ⊢
        cases hlen : parseU32 m with
        | some len =>
          simp only [hlen] at hmask ⊢
          exact agreeUnder_prefixMask ip.width_cases hmask hpeer ip.bits_lt
        | none =>
          simp only [hlen] at hmask ⊢
          cases hnet : parseIp m with
          | none => simp [hnet] at hmask
          | some netmask =>
            simp only [hnet] at hmask
            split at hmask
            · obtain rfl := Option.some.inj hmask
              simp
            · cases hmask

/-- Who is let in by the address. -/
theorem allows_iff {entries : List String} {nets : List Net}
    (h : parseAllowIp parseIp entries = .ok nets) (peer : IpAddr) :
    allows nets peer = true ↔ peer.unmapped.isLoopback = true ∨
      ∃ e ∈ entries, InEntry parseIp e peer.unmapped := by
  unfold allows
  rw [Bool.or_eq_true]
  refine or_congr_right ?_
  generalize peer.unmapped = peer
  unfold parseAllowIp at h
  induction entries generalizing nets with
  | nil =>
    obtain rfl : [] = nets := by simpa [pure, Except.pure] using h
    simp
  | cons e es ih =>
    rw [List.mapM_cons] at h
    obtain ⟨n, hn, h⟩ := Result.bind_eq_ok.mp h
    obtain ⟨ns, hns, h⟩ := Result.bind_eq_ok.mp h
    cases h
    rw [List.any_cons, Bool.or_eq_true, ih hns, List.exists_mem_cons_iff]
    refine or_congr_left ?_
    rw [← inEntry_iff hn peer, Bool.and_eq_true, decide_eq_true_eq, decide_eq_true_eq]

/-! ## The credentials -/

theorem eqCt_iff (a b : Bytes) : eqCt a b = true ↔ a = b := by
  have hfold (ps : List (UInt8 × UInt8)) (acc : UInt8) :
      ps.foldl (fun acc p ↦ acc ||| (p.1 ^^^ p.2)) acc = 0 ↔ acc = 0 ∧ ∀ p ∈ ps, p.1 = p.2 := by
    induction ps generalizing acc with
    | nil => simp
    | cons p ps ih =>
      rw [List.foldl_cons, ih, UInt8.or_eq_zero_iff, UInt8.xor_eq_zero_iff]
      simp [and_assoc]
  unfold eqCt
  split
  · rename_i hlength
    constructor
    · intro h
      cases h
    · intro h
      exact absurd (congrArg List.length h) hlength
  · rename_i hlength
    rw [decide_eq_true_eq, hfold]
    constructor
    · intro h
      refine List.ext_getElem (not_not.mp hlength) fun i hi hi' ↦ ?_
      have hzip : (a[i], b[i]) ∈ a.zip b := by
        rw [List.mem_iff_getElem]
        exact ⟨i, by simpa using ⟨hi, hi'⟩, List.getElem_zip⟩
      exact h.2 _ hzip
    · rintro rfl
      refine ⟨rfl, fun p hp ↦ ?_⟩
      obtain ⟨i, hi, rfl⟩ := List.mem_iff_getElem.mp hp
      simp

/-- A header with the credentials: Basic, and a text that is their Base64. -/
def Carries (accepted : List Bytes) (header : Option Bytes) : Prop :=
  ∃ text, header = some (utf8 ("Basic ".toList ++ text)) ∧
    ∃ a ∈ accepted, trimChars text = Base64.encode a

theorem checkCredentials_iff (accepted : List Bytes) (header : Option Bytes) :
    checkCredentials accepted header = true ↔ Carries accepted header := by
  have hfold (decoded : Bytes) (as : List Bytes) (ok : Bool) :
      as.foldl (fun ok a ↦ eqCt a decoded || ok) ok = true ↔ ok = true ∨ decoded ∈ as := by
    induction as generalizing ok with
    | nil => simp
    | cons a as ih =>
      rw [List.foldl_cons, ih, Bool.or_eq_true, eqCt_iff, List.mem_cons]
      constructor
      · rintro ((rfl | hok) | hmem)
        · exact .inr (.inl rfl)
        · exact .inl hok
        · exact .inr (.inr hmem)
      · rintro (hok | rfl | hmem)
        · exact .inl (.inr hok)
        · exact .inl (.inl rfl)
        · exact .inr hmem
  unfold checkCredentials Carries
  cases hheader : header.bind fromUtf8 with
  | none =>
    constructor
    · intro h
      cases h
    · rintro ⟨text, rfl, -⟩
      rw [Option.bind_some, fromUtf8_utf8] at hheader
      cases hheader
  | some h =>
    obtain ⟨b, rfl, hb⟩ := Option.bind_eq_some_iff.mp hheader
    obtain rfl := fromUtf8_eq_some.mp hb
    dsimp only
    split
    · rename_i hprefix
      obtain ⟨text, rfl⟩ := List.isPrefixOf_iff_prefix.mp hprefix
      have hdrop : ("Basic ".toList ++ text).drop 6 = text := rfl
      rw [hdrop]
      constructor
      · intro h
        split at h
        · cases h
        · rename_i decoded hdecoded
          refine ⟨text, rfl, decoded, ?_, Base64.decode_eq_some_iff.mp hdecoded⟩
          simpa using (hfold decoded accepted false).mp h
      · rintro ⟨text', htext, a, ha, htrim⟩
        have hsame := fromUtf8_eq_some.mpr (Option.some.inj htext).symm
        rw [fromUtf8_utf8] at hsame
        obtain rfl := List.append_cancel_left (Option.some.inj hsame)
        rw [htrim, Base64.decode_encode]
        exact (hfold a accepted false).mpr (.inr ha)
    · rename_i hprefix
      constructor
      · intro h
        cases h
      · rintro ⟨text, htext, -⟩
        have hsame := fromUtf8_eq_some.mpr (Option.some.inj htext).symm
        rw [fromUtf8_utf8] at hsame
        refine absurd ?_ hprefix
        rw [Option.some.inj hsame]
        exact List.isPrefixOf_iff_prefix.mpr (List.prefix_append _ _)

/-- `basic_header`. -/
def basicHeader (userPass : String) : String :=
  "Basic " ++ String.ofList (Base64.encode (utf8 userPass.toList))

/-- The header that a client makes of the credentials is accepted. -/
theorem checkCredentials_basicHeader (userPass : String) :
    checkCredentials [utf8 userPass.toList] (some (utf8 (basicHeader userPass).toList)) = true := by
  rw [checkCredentials_iff]
  refine ⟨Base64.encode (utf8 userPass.toList), ?_, _, List.mem_singleton_self _, ?_⟩
  · unfold basicHeader
    rw [String.toList_append, @String.toList_ofList (Base64.encode _)]
  · exact trimChars_eq_self fun c hc ↦ Base64.not_whitespace hc

/-! ## Requests -/

/-- A request that is let in. -/
structure Admitted (parseIp : String → Option IpAddr) (entries : List String) (accepted : List Bytes)
    (r : HttpRequest) : Prop where
  peer : r.peer.unmapped.isLoopback = true ∨ ∃ e ∈ entries, InEntry parseIp e r.peer.unmapped
  post : r.post = true
  credentials : Carries accepted r.authorization
  length : r.body.length ≤ maxBody

/-- The answer is a bare status. -/
def HttpReply.isPlain : HttpReply → Bool
  | .plain _ _ => true
  | .reply _ => false

theorem handle_cases {entries : List String} {door : Door}
    (h : parseAllowIp parseIp entries = .ok door.nets) (r : HttpRequest) (d : Desk σ) :
    (Admitted parseIp entries door.accepted r ∧ handle T cfg O door r d = answer T cfg O r d) ∨
      (¬ Admitted parseIp entries door.accepted r ∧ (handle T cfg O door r d).1.isPlain = true ∧
        (handle T cfg O door r d).2 = d) := by
  unfold handle
  have hpeer := allows_iff h r.peer
  have hcreds := checkCredentials_iff door.accepted r.authorization
  cases hallows : allows door.nets r.peer with
  | false =>
    refine .inr ⟨fun ha ↦ ?_, rfl, rfl⟩
    rw [hpeer.mpr ha.peer] at hallows
    cases hallows
  | true =>
    cases hpost : r.post with
    | false =>
      refine .inr ⟨fun ha ↦ ?_, rfl, rfl⟩
      rw [ha.post] at hpost
      cases hpost
    | true =>
      cases hcheck : checkCredentials door.accepted r.authorization with
      | false =>
        refine .inr ⟨fun ha ↦ ?_, rfl, rfl⟩
        rw [hcreds.mpr ha.credentials] at hcheck
        cases hcheck
      | true =>
        simp only [Bool.not_true, Bool.false_eq_true, if_false]
        split
        · rename_i hlong
          exact .inr ⟨fun ha ↦ absurd ha.length (by omega), rfl, rfl⟩
        · rename_i hshort
          exact .inl ⟨⟨hpeer.mp hallows, hpost, hcreds.mp hcheck, not_lt.mp hshort⟩, rfl⟩

theorem isPlain_answer (r : HttpRequest) (d : Desk σ) : (answer T cfg O r d).1.isPlain = false := by
  unfold answer
  split <;> rfl

open Classical in
/-- **Who reaches the façade.**  Of any requests, exactly those are dispatched that come from the
loopback or an allowed address, by POST, with the credentials and not too long; the others are
answered with a bare status, and the wallet and the node are as if they had not come. -/
theorem facade_access {entries : List String} {door : Door}
    (h : parseAllowIp parseIp entries = .ok door.nets) (rs : List HttpRequest) (d : Desk σ) :
    (serve T cfg O door rs d).2 =
        (rs.filter fun r ↦ Admitted parseIp entries door.accepted r).foldl
          (fun d r ↦ (answer T cfg O r d).2) d ∧
      (serve T cfg O door rs d).1.map HttpReply.isPlain =
        rs.map fun r ↦ decide (¬ Admitted parseIp entries door.accepted r) := by
  induction rs generalizing d with
  | nil => exact ⟨rfl, rfl⟩
  | cons r rs ih =>
    obtain ⟨hdesk, hreplies⟩ := ih (handle T cfg O door r d).2
    rw [serve]
    dsimp only
    rw [List.map_cons, List.map_cons, hreplies, hdesk]
    rcases handle_cases T cfg O h r d with ⟨ha, hhandle⟩ | ⟨ha, hplain, hsame⟩
    · rw [List.filter_cons, if_pos (by simpa using ha), List.foldl_cons, hhandle, isPlain_answer]
      exact ⟨rfl, by simp [ha]⟩
    · rw [List.filter_cons, if_neg (by simpa using ha), hsame, hplain]
      exact ⟨rfl, by simp [ha]⟩

/-- How the texts of the example below are read. -/
def sampleIp (text : String) : Option IpAddr :=
  if text = "10.0.0.0" then some (.v4 0x0A000000#32) else none

/-- The façade of the example below: a subnet, and one pair of credentials. -/
def sampleDoor : Door where
  nets := [⟨0x0A000000#128, 0xFF000000#128, true⟩]
  accepted := [utf8 "user:pass".toList]

/-- A request of a peer of the subnet, with or without credentials. -/
def sampleRequest (authorization : Option Bytes) : HttpRequest where
  peer := .v4 0x0A010203#32
  post := true
  authorization := authorization
  path := "/"
  body := utf8 "\x7b\"method\":\"getblockcount\"\x7d".toList

/-- The same call twice: without credentials it is refused, with them it is dispatched. -/
theorem facade_access_sample :
    let refused := sampleRequest none
    let admitted := sampleRequest (some (utf8 (basicHeader "user:pass").toList))
    parseAllowIp sampleIp ["10.0.0.0/8"] = .ok sampleDoor.nets ∧
      (serve sampleTables ⟨false, false⟩ openDoor sampleDoor [refused, admitted] ⟨(), []⟩).1.map
        HttpReply.isPlain = [true, false] ∧
      (serve sampleTables ⟨false, false⟩ openDoor sampleDoor [refused, admitted] ⟨(), []⟩).2 =
        (answer sampleTables ⟨false, false⟩ openDoor admitted ⟨(), []⟩).2 := by
  intro refused admitted
  have hparse : parseAllowIp sampleIp ["10.0.0.0/8"] = .ok sampleDoor.nets := by decide +kernel
  have hout : ¬ Admitted sampleIp ["10.0.0.0/8"] sampleDoor.accepted refused := by
    rintro ⟨-, -, ⟨text, htext, -⟩, -⟩
    cases htext
  have hin : Admitted sampleIp ["10.0.0.0/8"] sampleDoor.accepted admitted :=
    ⟨(allows_iff hparse _).mp (by decide +kernel), rfl,
      (checkCredentials_iff _ _).mp (checkCredentials_basicHeader "user:pass"), by decide +kernel⟩
  obtain ⟨hdesk, hplain⟩ :=
    facade_access sampleTables ⟨false, false⟩ openDoor hparse [refused, admitted] ⟨(), []⟩
  refine ⟨hparse, ?_, ?_⟩
  · rw [hplain]
    simp [hout, hin]
  · rw [hdesk]
    simp [hout, hin]

end Yew.Facade
