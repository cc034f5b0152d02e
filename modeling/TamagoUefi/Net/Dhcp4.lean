import Mathlib.Data.List.DropRight
import TamagoUefi.Lib.Buffer
import TamagoUefi.Net.Ipv4

/-!
# TamagoUefi.Net.Dhcp4 — DHCP messages, options and leases (`dhcp4.go`)

A message is the BOOTP header with its cookie at byte 236, and from byte 240 on the options: tag,
length and value, zero bytes between them, up to the End option.

* `parseDHCP4Options`, `parseDHCP4Message`, `dhcp4LeaseFromOptions`: what is read of a reply.
* `parseDHCP4Options_padded`: the options are read, whatever stands in their values and behind the End.
* `lease_of_reply_iff`: a reply gives the lease it carries exactly when its options take up four bytes
  or more.  The parser asks for four bytes behind a header that already counts the cookie.
-/

namespace TamagoUefi.Net

open Go Lib

inductive Dhcp4Err
  | timeout
  | missingOption
  | nak
  | badFormat
  | invalidMAC
  /-- An error of `OpenUDP4` or of the socket. -/
  | socket (text : Bytes)
  deriving DecidableEq

def dhcp4HeaderLen : ℕ := 240
def dhcp4MagicCookie : BitVec 32 := 0x63825363
def dhcp4BootReply : UInt8 := 2
def dhcp4MsgNak : UInt8 := 6

def dhcp4OptPad : UInt8 := 0
def dhcp4OptSubnetMask : UInt8 := 1
def dhcp4OptRouter : UInt8 := 3
def dhcp4OptDNS : UInt8 := 6
def dhcp4OptLeaseTime : UInt8 := 51
def dhcp4OptMessageType : UInt8 := 53
def dhcp4OptServerID : UInt8 := 54
def dhcp4OptBootfileName : UInt8 := 67
def dhcp4OptEnd : UInt8 := 255

/-- A lease; what the reply does not carry is `none`. -/
structure DHCP4Lease where
  ip : Bytes
  mask : Option Bytes
  gateway : Option Bytes
  dns : List Bytes
  server : Option Bytes
  /-- In nanoseconds. -/
  duration : ℕ
  bootfileName : Bytes
  deriving DecidableEq

/-! ## Options -/

/-- A map from tags to values. -/
abbrev Dhcp4Options : Type := UInt8 → Option Bytes

structure Dhcp4OptionEntry where
  tag : UInt8
  value : Bytes
  deriving DecidableEq

def Dhcp4OptionEntry.bytes (e : Dhcp4OptionEntry) : Bytes :=
  e.tag :: UInt8.ofNat e.value.length :: e.value

/-- The loop over the options; each turn takes a byte at least. -/
def optionsLoop : ℕ → Bytes → Dhcp4Options → Except Dhcp4Err Dhcp4Options
  | 0, _, out => .ok out
  | _ + 1, [], out => .ok out
  | fuel + 1, tag :: rest, out =>
    if tag = dhcp4OptEnd then .ok out
    else if tag = dhcp4OptPad then optionsLoop fuel rest out
    else
      match rest with
      | [] => .error .badFormat
      | l :: rest =>
        if rest.length < l.toNat then .error .badFormat
        else optionsLoop fuel (rest.drop l.toNat)
          (Function.update out tag (some (rest.take l.toNat)))

def parseDHCP4Options (buf : Bytes) : Except Dhcp4Err Dhcp4Options :=
  optionsLoop buf.length buf fun _ => none

/-! ## Messages -/

/-- The `file` field up to its first zero byte. -/
def bootpFile (buf : Bytes) : Bytes := ((buf.drop 108).take 128).takeWhile (· ≠ 0)

/-- The fallback for servers that fill the `file` field instead of option 67. -/
def fillBootfile (buf : Bytes) (opts : Dhcp4Options) : Dhcp4Options :=
  if (opts dhcp4OptBootfileName).isSome ∨ bootpFile buf = [] then opts
  else Function.update opts dhcp4OptBootfileName (some (bootpFile buf))

def parseDHCP4Message (buf : Bytes) : Except Dhcp4Err (BitVec 32 × Bytes × Dhcp4Options) :=
  if buf.length < dhcp4HeaderLen + 4 then .error .badFormat
  else if buf.getD 0 0 ≠ dhcp4BootReply then .error .badFormat
  else if u32 buf 236 ≠ dhcp4MagicCookie then .error .badFormat
  else do
    let opts ← parseDHCP4Options (buf.drop 240)
    pure (u32 buf 4, (buf.drop 16).take 4, fillBootfile buf opts)

def dhcp4XIDFromMAC (mac : Bytes) (seed : BitVec 32) : BitVec 32 :=
  if mac.length < 6 then seed else seed ^^^ u32 mac 2 ^^^ u32 ([0, 0] ++ mac.take 2) 0

def parseDHCP4MessageType (opts : Dhcp4Options) : Except Dhcp4Err UInt8 :=
  match opts dhcp4OptMessageType with
  | none => .error .missingOption
  | some [t] => .ok t
  | some _ => .error .badFormat

/-! ## Leases -/

def nanosPerSecond : ℕ := 1000000000

def dhcp4LeaseFromOptions (yiaddr : Bytes) (opts : Dhcp4Options) : DHCP4Lease where
  ip := yiaddr
  mask := (opts dhcp4OptSubnetMask).filter (·.length = 4)
  gateway := ((opts dhcp4OptRouter).filter (4 ≤ ·.length)).map (·.take 4)
  dns :=
    match opts dhcp4OptDNS with
    | none => []
    | some d => (List.range (min (d.length / 4) 4)).map fun i => (d.drop (i * 4)).take 4
  server := (opts dhcp4OptServerID).filter (·.length = 4)
  duration :=
    match (opts dhcp4OptLeaseTime).filter (·.length = 4) with
    | none => 0
    | some l => (u32 l 0).toNat * nanosPerSecond
  bootfileName := ((opts dhcp4OptBootfileName).getD []).rdropWhile (· = 0)

/-! ## Reading options back -/

/-- An entry that an option can carry. -/
structure Dhcp4OptionEntry.Fits (e : Dhcp4OptionEntry) : Prop where
  notPad : e.tag ≠ dhcp4OptPad
  notEnd : e.tag ≠ dhcp4OptEnd
  short : e.value.length ≤ 255

/-- Options with zero bytes in front of each. -/
def paddedOptions (opts : List (ℕ × Dhcp4OptionEntry)) : Bytes :=
  opts.flatMap fun o => List.replicate o.1 dhcp4OptPad ++ o.2.bytes

/-- What stands behind the cookie: the options, zero bytes, the End option and anything. -/
def optionsArea (opts : List (ℕ × Dhcp4OptionEntry)) (pads : ℕ) (rest : Bytes) : Bytes :=
  paddedOptions opts ++ (List.replicate pads dhcp4OptPad ++ dhcp4OptEnd :: rest)

/-- The map after the entries. -/
def enter (out : Dhcp4Options) (o : ℕ × Dhcp4OptionEntry) : Dhcp4Options :=
  Function.update out o.2.tag (some o.2.value)

theorem optionsLoop_end (fuel : ℕ) (rest : Bytes) (out : Dhcp4Options) :
    optionsLoop (fuel + 1) (dhcp4OptEnd :: rest) out = .ok out := by
  rw [optionsLoop.eq_def]
  exact if_pos rfl

theorem optionsLoop_pad (fuel : ℕ) (rest : Bytes) (out : Dhcp4Options) :
    optionsLoop (fuel + 1) (dhcp4OptPad :: rest) out = optionsLoop fuel rest out := by
  rw [optionsLoop.eq_def]
  exact (if_neg (by decide)).trans (if_pos rfl)

theorem optionsLoop_pads {buf : Bytes} {out : Dhcp4Options} : ∀ {n fuel : ℕ}, n ≤ fuel →
    optionsLoop fuel (List.replicate n dhcp4OptPad ++ buf) out = optionsLoop (fuel - n) buf out
  | 0, fuel, _ => rfl
  | n + 1, 0, h => absurd h (by omega)
  | n + 1, fuel + 1, h => by
    rw [List.replicate_succ, List.cons_append, optionsLoop_pad, optionsLoop_pads (by omega),
      Nat.add_sub_add_right]

theorem optionsLoop_entry {e : Dhcp4OptionEntry} (h : e.Fits) (buf : Bytes) (out : Dhcp4Options)
    (fuel : ℕ) : optionsLoop (fuel + 1) (e.bytes ++ buf) out =
      optionsLoop fuel buf (Function.update out e.tag (some e.value)) := by
  have hlen : (UInt8.ofNat e.value.length).toNat = e.value.length := by
    rw [UInt8.toNat_ofNat']
    exact Nat.mod_eq_of_lt (Nat.lt_succ_of_le h.short)
  rw [Dhcp4OptionEntry.bytes, List.cons_append, List.cons_append, optionsLoop, if_neg h.notEnd,
    if_neg h.notPad, hlen, if_neg (by simp), List.drop_left, List.take_left]

theorem optionsLoop_padded {rest : Bytes} {pads : ℕ} :
    ∀ {opts : List (ℕ × Dhcp4OptionEntry)} {fuel : ℕ} {out : Dhcp4Options},
      (∀ o ∈ opts, o.2.Fits) → (optionsArea opts pads rest).length ≤ fuel →
      optionsLoop fuel (optionsArea opts pads rest) out = .ok (opts.foldl enter out)
  | [], fuel, out, _, hfuel => by
    simp only [optionsArea, paddedOptions, List.flatMap_nil, List.nil_append, List.length_append,
      List.length_replicate, List.length_cons] at hfuel ⊢
    rw [optionsLoop_pads (by omega)]
    obtain ⟨k, hk⟩ : ∃ k, fuel - pads = k + 1 := ⟨fuel - pads - 1, by omega⟩
    rw [hk, optionsLoop_end]
    rfl
  | (n, e) :: opts, fuel, out, hfits, hfuel => by
    have hcons : optionsArea ((n, e) :: opts) pads rest =
        List.replicate n dhcp4OptPad ++ (e.bytes ++ optionsArea opts pads rest) := by
      simp only [optionsArea, paddedOptions, List.flatMap_cons, List.append_assoc]
    have hbytes : e.bytes.length = e.value.length + 2 := rfl
    rw [hcons, List.length_append, List.length_append, List.length_replicate, hbytes] at hfuel
    obtain ⟨k, hk⟩ : ∃ k, fuel - n = k + 1 := ⟨fuel - n - 1, by omega⟩
    rw [hcons, optionsLoop_pads (by omega), hk,
      optionsLoop_entry (hfits _ List.mem_cons_self),
      optionsLoop_padded (fun o ho => hfits o (List.mem_cons_of_mem _ ho)) (by omega)]
    rfl

variable {opts : List (ℕ × Dhcp4OptionEntry)}

/-- **Options**: they are read one by one up to the End option, whatever their values contain. -/
theorem parseDHCP4Options_padded (hfits : ∀ o ∈ opts, o.2.Fits) (pads : ℕ) (rest : Bytes) :
    parseDHCP4Options (optionsArea opts pads rest) = .ok (opts.foldl enter fun _ => none) :=
  optionsLoop_padded hfits le_rfl

/-- The value that a list of options has for a tag. -/
def carried (opts : List (ℕ × Dhcp4OptionEntry)) (tag : UInt8) : Option Bytes :=
  (opts.find? fun o => o.2.tag = tag).map fun o => o.2.value

theorem carried_cons (o : ℕ × Dhcp4OptionEntry) (opts : List (ℕ × Dhcp4OptionEntry)) (tag : UInt8) :
    carried (o :: opts) tag = if o.2.tag = tag then some o.2.value else carried opts tag := by
  unfold carried
  rw [List.find?_cons]
  split_ifs with h
  · simp [h]
  · simp [h]

theorem carried_of_notMem {tag : UInt8} (h : tag ∉ opts.map fun o => o.2.tag) : carried opts tag = none := by
  induction opts with
  | nil => rfl
  | cons o opts ih =>
    rw [List.map_cons, List.mem_cons, not_or] at h
    rw [carried_cons, if_neg (Ne.symm h.1), ih h.2]

/-- With distinct tags the map has for each the one value there is. -/
theorem foldl_enter : ∀ {opts : List (ℕ × Dhcp4OptionEntry)} (out : Dhcp4Options) (tag : UInt8),
    (opts.map fun o => o.2.tag).Nodup →
    opts.foldl enter out tag = (carried opts tag).or (out tag)
  | [], _, _, _ => rfl
  | o :: opts, out, tag, hnodup => by
    rw [List.map_cons, List.nodup_cons] at hnodup
    rw [List.foldl_cons, foldl_enter _ tag hnodup.2, carried_cons]
    by_cases htag : o.2.tag = tag
    · subst htag
      rw [if_pos rfl, carried_of_notMem hnodup.1, enter, Function.update_self]
      rfl
    · rw [if_neg htag, enter, Function.update_of_ne (Ne.symm htag)]

/-! ## Replies -/

/-- The fields of a BOOTP reply. -/
structure BootpReply where
  htype : UInt8
  hlen : UInt8
  hops : UInt8
  xid : BitVec 32
  secs : UInt16
  flags : UInt16
  ciaddr : BitVec 32
  yiaddr : BitVec 32
  siaddr : BitVec 32
  giaddr : BitVec 32
  chaddr : Vector UInt8 16
  sname : Vector UInt8 64
  file : Vector UInt8 128

namespace BootpReply

/-- The fields before `yiaddr`, with the operation. -/
def front (r : BootpReply) : Bytes :=
  [dhcp4BootReply, r.htype, r.hlen, r.hops] ++ (putU32 r.xid ++ (putU16 r.secs ++ (putU16 r.flags ++
    putU32 r.ciaddr)))

/-- The fields between `yiaddr` and `file`. -/
def middle (r : BootpReply) : Bytes :=
  putU32 r.siaddr ++ (putU32 r.giaddr ++ (r.chaddr.toList ++ r.sname.toList))

/-- The message with the given bytes behind the cookie. -/
def message (r : BootpReply) (area : Bytes) : Bytes :=
  r.front ++ (putU32 r.yiaddr ++ (r.middle ++ (r.file.toList ++ (putU32 dhcp4MagicCookie ++ area))))

/-- The name in the `file` field. -/
def fileName (r : BootpReply) : Bytes := r.file.toList.takeWhile (· ≠ 0)

end BootpReply

/-- The addresses that stand one behind the other; a partial one at the end is none. -/
def addresses : Bytes → List Bytes
  | a :: b :: c :: d :: rest => [a, b, c, d] :: addresses rest
  | _ => []

/-- The lease a reply carries. -/
def BootpReply.lease (r : BootpReply) (opts : List (ℕ × Dhcp4OptionEntry)) : DHCP4Lease where
  ip := putU32 r.yiaddr
  mask := (carried opts dhcp4OptSubnetMask).filter (·.length = 4)
  gateway := (carried opts dhcp4OptRouter).bind fun v => (addresses v).head?
  dns := (addresses ((carried opts dhcp4OptDNS).getD [])).take 4
  server := (carried opts dhcp4OptServerID).filter (·.length = 4)
  duration :=
    match (carried opts dhcp4OptLeaseTime).filter (·.length = 4) with
    | none => 0
    | some l => (u32 l 0).toNat * nanosPerSecond
  bootfileName :=
    match carried opts dhcp4OptBootfileName with
    | some name => name.rdropWhile (· = 0)
    | none => r.fileName

theorem length_lt_four {d : Bytes} (h : ∀ (a b c e : UInt8) (rest : Bytes),
    d = a :: b :: c :: e :: rest → False) : d.length < 4 := by
  rcases d with _ | ⟨a, _ | ⟨b, _ | ⟨c, _ | ⟨e, rest⟩⟩⟩⟩
  · simp
  · simp
  · simp
  · simp
  · exact (h a b c e rest rfl).elim

theorem addresses_eq_map (d : Bytes) :
    addresses d = (List.range (d.length / 4)).map fun i => (d.drop (i * 4)).take 4 := by
  fun_induction addresses d with
  | case1 a b c e rest ih =>
    have hlen : (a :: b :: c :: e :: rest).length / 4 = rest.length / 4 + 1 := by
      simp only [List.length_cons]
      omega
    rw [hlen, List.range_succ_eq_map, List.map_cons, List.map_map, ih]
    refine congrArg₂ _ rfl (List.map_congr_left fun i _ => ?_)
    have hdrop : (i + 1) * 4 = i * 4 + 1 + 1 + 1 + 1 := by omega
    simp only [Function.comp_apply, hdrop, List.drop_succ_cons]
  | case2 d hshort =>
    rw [Nat.div_eq_of_lt (length_lt_four hshort)]
    rfl

theorem take_addresses (d : Bytes) : (addresses d).take 4 =
    (List.range (min (d.length / 4) 4)).map fun i => (d.drop (i * 4)).take 4 := by
  rw [addresses_eq_map, ← List.map_take, List.take_range, Nat.min_comm]

theorem head_addresses (d : Bytes) :
    (addresses d).head? = if 4 ≤ d.length then some (d.take 4) else none := by
  fun_cases addresses d with
  | case1 a b c e rest =>
    rw [if_pos (by simp)]
    rfl
  | case2 d hshort => rw [if_neg (Nat.not_le_of_lt (length_lt_four hshort))]; rfl

/-! ## The lease of a reply -/

theorem u32_of_holdsAt {pkt : Bytes} {off : ℕ} {n : BitVec 32} (h : HoldsAt pkt off (putU32 n)) :
    u32 pkt off = n := by
  obtain ⟨pre, post, rfl, rfl⟩ := h
  have hhi : u16 (pre ++ (putU32 n ++ post)) pre.length = u16 (putU32 n ++ post) 0 :=
    u16_append pre _ 0
  have hlo := u16_append pre (putU32 n ++ post) 2
  rw [List.append_assoc, u32, hhi, hlo]
  exact u32_putU32 n post

namespace BootpReply

variable (r : BootpReply) (area : Bytes)

theorem length_middle : r.middle.length = 88 := by
  simp [middle, putU32]

theorem length_message : (r.message area).length = 240 + area.length := by
  have hfront : r.front.length = 16 := rfl
  simp only [message, List.length_append, hfront, length_middle, Vector.length_toList, putU32,
    putU16_length]
  omega

theorem holdsAt_message : HoldsAt (r.message area) 4 (putU32 r.xid) ∧
    HoldsAt (r.message area) 16 (putU32 r.yiaddr) ∧ HoldsAt (r.message area) 108 r.file.toList ∧
    HoldsAt (r.message area) 236 (putU32 dhcp4MagicCookie) ∧ HoldsAt (r.message area) 240 area := by
  have hall : HoldsAt (r.message area) 0 (r.message area) := ⟨[], [], by simp, rfl⟩
  have hxid := hall.append.1.append.2.append.1
  have hyiaddr := hall.append.2
  have hfile := hyiaddr.append.2.append.2
  have hcookie := hfile.append.2
  have harea := hcookie.append.2
  have hfront : r.front.length = 16 := rfl
  simp only [hfront, length_middle, Vector.length_toList, putU32, List.length_append,
    putU16_length] at hyiaddr hfile hcookie harea
  exact ⟨hxid, hyiaddr.append.1, hfile.append.1, hcookie.append.1, harea⟩

theorem bootpFile_message : bootpFile (r.message area) = r.fileName := by
  have hfile := (r.holdsAt_message area).2.2.1.slice
  rw [Vector.length_toList] at hfile
  rw [bootpFile, hfile, fileName]

theorem drop_message : (r.message area).drop 240 = area := by
  obtain ⟨post, hpost⟩ := (r.holdsAt_message area).2.2.2.2.drop
  have hlen := congrArg List.length hpost
  rw [List.length_drop, r.length_message, List.length_append] at hlen
  have hnil : post = [] := List.length_eq_zero_iff.mp (by omega)
  rw [hpost, hnil, List.append_nil]

theorem parse_message (hlen : 4 ≤ area.length) {opts : Dhcp4Options}
    (hopts : parseDHCP4Options area = .ok opts) :
    parseDHCP4Message (r.message area) =
      .ok (r.xid, putU32 r.yiaddr, fillBootfile (r.message area) opts) := by
  obtain ⟨hxid, hyiaddr, -, hcookie, -⟩ := r.holdsAt_message area
  have hlong : ¬ (r.message area).length < dhcp4HeaderLen + 4 := by
    rw [r.length_message, dhcp4HeaderLen]
    omega
  have hop : (r.message area).getD 0 0 = dhcp4BootReply := rfl
  rw [parseDHCP4Message, if_neg hlong, if_neg (not_not.mpr hop),
    if_neg (not_not.mpr (u32_of_holdsAt hcookie)), r.drop_message, hopts, u32_of_holdsAt hxid]
  exact congrArg (fun ip => Except.ok (r.xid, ip, _)) hyiaddr.slice

/-- A message with less behind the cookie is malformed to the parser. -/
theorem parse_message_short (hlen : area.length < 4) :
    parseDHCP4Message (r.message area) = .error .badFormat := by
  rw [parseDHCP4Message, if_pos]
  rw [r.length_message, dhcp4HeaderLen]
  omega

theorem rdropWhile_fileName : r.fileName.rdropWhile (· = 0) = r.fileName := by
  rw [List.rdropWhile_eq_self_iff]
  intro hne hlast
  have hmem := List.mem_takeWhile_imp (List.getLast_mem hne)
  simp only [decide_eq_true_eq] at hlast hmem
  exact hmem hlast

theorem bootfile_fill (opts : Dhcp4Options) :
    ((fillBootfile (r.message area) opts dhcp4OptBootfileName).getD []).rdropWhile (· = 0) =
      match opts dhcp4OptBootfileName with
      | some name => name.rdropWhile (· = 0)
      | none => r.fileName := by
  rw [fillBootfile, bootpFile_message]
  cases hopt : opts dhcp4OptBootfileName with
  | some name =>
    rw [if_pos (Or.inl Option.isSome_some), hopt]
    rfl
  | none =>
    by_cases hfile : r.fileName = []
    · rw [if_pos (Or.inr hfile), hopt, hfile]
      rfl
    · rw [if_neg (by simp [hfile]), Function.update_self]
      exact r.rdropWhile_fileName

theorem fill_of_ne (opts : Dhcp4Options) {tag : UInt8} (h : tag ≠ dhcp4OptBootfileName) :
    fillBootfile (r.message area) opts tag = opts tag := by
  unfold fillBootfile
  split_ifs
  · rfl
  · exact Function.update_of_ne h _ _

theorem lease_fill {map : Dhcp4Options} (hmap : ∀ tag, map tag = carried opts tag) :
    dhcp4LeaseFromOptions (putU32 r.yiaddr) (fillBootfile (r.message area) map) = r.lease opts := by
  have hboot := r.bootfile_fill area map
  rw [hmap] at hboot
  unfold dhcp4LeaseFromOptions lease
  rw [r.fill_of_ne area map (by decide), r.fill_of_ne area map (by decide),
    r.fill_of_ne area map (by decide), r.fill_of_ne area map (by decide),
    r.fill_of_ne area map (by decide), hboot, hmap, hmap, hmap, hmap, hmap]
  congr 1
  · cases carried opts dhcp4OptRouter with
    | none => rfl
    | some v =>
      rw [Option.bind_some, head_addresses]
      by_cases hv : 4 ≤ v.length
      · simp [Option.filter, hv]
      · simp [Option.filter, hv]
  · cases carried opts dhcp4OptDNS with
    | none => rfl
    | some d => exact (take_addresses d).symm

end BootpReply

/-- **The lease of a reply**: whatever its fields and its options, with distinct tags, the parser
returns its ID and address and the extractor its lease, exactly when four bytes or more follow the
cookie. -/
theorem lease_of_reply_iff (r : BootpReply) (opts : List (ℕ × Dhcp4OptionEntry)) (pads : ℕ)
    (rest : Bytes) (hfits : ∀ o ∈ opts, o.2.Fits) (hnodup : (opts.map fun o => o.2.tag).Nodup) :
    (∃ map, parseDHCP4Message (r.message (optionsArea opts pads rest)) =
        .ok (r.xid, putU32 r.yiaddr, map) ∧
      dhcp4LeaseFromOptions (putU32 r.yiaddr) map = r.lease opts) ↔
    4 ≤ (optionsArea opts pads rest).length := by
  constructor
  · rintro ⟨map, hparse, -⟩
    by_contra hshort
    rw [r.parse_message_short _ (by omega)] at hparse
    cases hparse
  · intro hlen
    refine ⟨_, r.parse_message _ hlen (parseDHCP4Options_padded hfits pads rest), ?_⟩
    refine r.lease_fill _ fun tag => ?_
    rw [foldl_enter _ tag hnodup, Option.or_none]

/-- A reply that assigns 10.0.2.15 and names no file. -/
def assignReply : BootpReply where
  htype := 1
  hlen := 6
  hops := 0
  xid := 7
  secs := 0
  flags := 0
  ciaddr := 0
  yiaddr := 0x0A00020F
  siaddr := 0
  giaddr := 0
  chaddr := Vector.replicate 16 0
  sname := Vector.replicate 64 0
  file := Vector.replicate 128 0

/-- An ACK with a mask, a router and a boot file that ends with a zero byte. -/
def ackOptions : List (ℕ × Dhcp4OptionEntry) :=
  [(0, ⟨53, [5]⟩), (2, ⟨1, [255, 255, 255, 0]⟩), (0, ⟨3, [10, 0, 2, 2, 10]⟩), (1, ⟨67, [104, 0]⟩)]

theorem ackOptions_fits : ∀ o ∈ ackOptions, o.2.Fits := by
  intro o ho
  simp only [ackOptions, List.mem_cons, List.not_mem_nil, or_false] at ho
  rcases ho with rfl | rfl | rfl | rfl
  · exact ⟨by decide, by decide, by decide⟩
  · exact ⟨by decide, by decide, by decide⟩
  · exact ⟨by decide, by decide, by decide⟩
  · exact ⟨by decide, by decide, by decide⟩

theorem lease_of_ack : ∃ map,
    parseDHCP4Message (assignReply.message (optionsArea ackOptions 3 [0xAB])) =
      .ok (7, [10, 0, 2, 15], map) ∧
    dhcp4LeaseFromOptions [10, 0, 2, 15] map =
      ⟨[10, 0, 2, 15], some [255, 255, 255, 0], some [10, 0, 2, 2], [], none, 0, [104]⟩ :=
  (lease_of_reply_iff assignReply ackOptions 3 [0xAB] ackOptions_fits (by decide)).mpr (by decide)

/-- A reply whose only option is End is turned away. -/
theorem lease_of_reply_short :
    ¬ ∀ (r : BootpReply) (opts : List (ℕ × Dhcp4OptionEntry)) (pads : ℕ) (rest : Bytes),
      (∀ o ∈ opts, o.2.Fits) → (opts.map fun o => o.2.tag).Nodup →
      ∃ map, parseDHCP4Message (r.message (optionsArea opts pads rest)) =
          .ok (r.xid, putU32 r.yiaddr, map) ∧
        dhcp4LeaseFromOptions (putU32 r.yiaddr) map = r.lease opts := by
  intro h
  obtain ⟨map, hparse, -⟩ := h assignReply [] 0 [] (by simp) (by simp)
  rw [assignReply.parse_message_short _ (by decide)] at hparse
  cases hparse

end TamagoUefi.Net
