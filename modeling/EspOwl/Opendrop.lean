import EspOwl.HexText
import EspOwl.Transmit

namespace EspOwl.Opendrop
open HexText

-- The bytes of a string constant.
def ascii (text : String) : List UInt8 := text.toList.map fun c => UInt8.ofNat c.toNat

def etherAddrToIn6Addr (addr : EtherAddr) : In6Addr :=
  .ofBytes [0xfe,0x80,0x00,0x00,0x00,0x00,0x00,0x00,addr.octet0 ^^^ 0x02,addr.octet1,addr.octet2,0xff,0xfe,
    addr.octet3,addr.octet4,addr.octet5]

-- "%02x%02x:%02x%02x:%02x%02x:%02x%02x:%02x%02x:%02x%02x:%02x%02x:%02x%02x"
def in6AddrToString (addr : In6Addr) : List UInt8 :=
  let hex := fun i => hexByte ((List.ofFn addr.s6Addr).getD i 0)
  [colon].intercalate [hex 0 ++ hex 1,hex 2 ++ hex 3,hex 4 ++ hex 5,hex 6 ++ hex 7,hex 8 ++ hex 9,hex 10 ++ hex 11,
    hex 12 ++ hex 13,hex 14 ++ hex 15]

-- The loop that fills clean_mac, which has room for so many digits.
def cleanMac : Nat → List UInt8 → List UInt8
  | 0,_ => []
  | _,[] => []
  | room+1,b :: rest => if isxdigit b then b :: cleanMac room rest else cleanMac (room+1) rest

-- `none` is the result -1, which leaves the caller's pointer as it was.
def parseMacAddress (macStr : List UInt8) : Option EtherAddr :=
  let clean := cleanMac 12 macStr
  if clean.length ≠ 12 then none
  else some (.ofBytes ((List.range 6).map fun i => UInt8.ofNat (strtol16 ((clean.drop (2 * i)).take 2))))

-- What a command line does to the rest of the node.
inductive CommandEffect where
  | print (text : String)
  | printStoredCertAndKey
  | generateAndStoreCertKey
  | httpsRequest (ipv6 : List UInt8)
  | awdlNeighborsPrint
  | awdlDisable
  | createTestCert
  | testBacktrace
  | resumeMdns
  | suspendMdns
  | listTasks
deriving DecidableEq

-- `mac` is not initialised; `wild` is the address that it happens to point to, if it
-- points to any. The result `none` is a read through it that fails.
def handleOpendropCommand (wild : Option EtherAddr) (str : List (List UInt8)) : Option (List CommandEffect) :=
  match str with
  | [] => some []
  | name :: arguments =>
    if name = ascii "cert" then
      match arguments with
      | [] => some []
      | action :: _ =>
        if action = ascii "print" then some [.printStoredCertAndKey]
        else if action = ascii "gen" then some [.generateAndStoreCertKey]
        else some []
    else if name = ascii "dis" then
      match arguments with
      | [address] =>
        if address.length ≠ 17 then some [.print "invalid mac address\n"]
        else
          let mac := (parseMacAddress address).or wild
          mac.map fun mac => [.httpsRequest (in6AddrToString (etherAddrToIn6Addr mac))]
      | _ => some []
    else some []

-- Six pairs of hex digits, separated by colons.
def Documented (s : List UInt8) (mac : EtherAddr) : Prop := Fields 2 s (mac.bytes.map UInt8.toNat)

def groups (addr : In6Addr) : List Nat :=
  List.ofFn fun i : Fin 8 =>
    (addr.s6Addr ⟨2 * i.val,by omega⟩).toNat * 256 + (addr.s6Addr ⟨2 * i.val + 1,by omega⟩).toNat

-- The text of an address: its eight groups, each in four hex digits.
def Shows (text : List UInt8) (addr : In6Addr) : Prop := Fields 4 text (groups addr)

def LinkLocal (addr : In6Addr) : Prop := (List.ofFn addr.s6Addr).take 8 = [0xfe,0x80,0,0,0,0,0,0]

-- What `drop dis s` may do: contact the one address that s documents.
structure ContactsOnly (s : List UInt8) (run : Option (List CommandEffect)) : Prop where
  documented : ∀ mac, Documented s mac → ∃ text addr, run = some [.httpsRequest text] ∧ Shows text addr ∧
    LinkLocal addr ∧ in6AddrToEtherAddr addr = mac
  other : (∀ mac, ¬ Documented s mac) → ∃ effects, run = some effects ∧ ∀ text, .httpsRequest text ∉ effects

theorem in6_inverse (mac : EtherAddr) : in6AddrToEtherAddr (etherAddrToIn6Addr mac) = mac := by
  have flipped : mac.octet0 ^^^ 0x02 ^^^ 0x02 = mac.octet0 := by
    rw [UInt8.xor_assoc,UInt8.xor_self,UInt8.xor_zero]
  change EtherAddr.mk (mac.octet0 ^^^ 0x02 ^^^ 0x02) mac.octet1 mac.octet2 mac.octet3 mac.octet4 mac.octet5 = mac
  rw [flipped]

theorem in6_linkLocal (mac : EtherAddr) : LinkLocal (etherAddrToIn6Addr mac) := rfl

theorem in6_shows (addr : In6Addr) : Shows (in6AddrToString addr) addr := by
  have shaped : ∀ a b, (hexByte a ++ hexByte b).length = 4 ∧ ∀ d ∈ hexByte a ++ hexByte b, isxdigit d :=
    fun a b => ⟨rfl,hexBytes_digits a b⟩
  obtain ⟨parts,laid,some_parts,each,read⟩ : ∃ parts, in6AddrToString addr = [colon].intercalate parts ∧
      parts ≠ [] ∧ (∀ part ∈ parts, part.length = 4 ∧ ∀ d ∈ part, isxdigit d) ∧ parts.map strtol16 = groups addr := by
    refine ⟨_,rfl,List.cons_ne_nil _ _,?_,?_⟩
    · simp only [List.forall_mem_cons]
      exact ⟨shaped _ _,shaped _ _,shaped _ _,shaped _ _,shaped _ _,shaped _ _,shaped _ _,shaped _ _,
        List.forall_mem_nil _⟩
    · simp only [List.map_cons,List.map_nil,strtol16_hexBytes]
      rfl
  rw [Shows,laid,← read]
  exact fields_join some_parts each

theorem cleanMac_take (room : Nat) (s : List UInt8) : cleanMac room s = (s.filter isxdigit).take room := by
  induction s generalizing room with
  | nil => cases room <;> rfl
  | cons b rest ih =>
    cases room with
    | zero => rfl
    | succ room =>
      rw [cleanMac]
      split
      · rename_i digit
        rw [List.filter_cons_of_pos digit,List.take_succ_cons,ih]
      · rename_i other
        rw [List.filter_cons_of_neg other,ih]

section Parsing
variable {s : List UInt8} {mac : EtherAddr}

theorem documented_length (documented : Documented s mac) : s.length = 17 := by
  have length := fields_length documented
  rw [List.length_map,mac.bytes_length] at length
  omega

theorem parse_documented (documented : Documented s mac) : parseMacAddress s = some mac := by
  have count := fields_count documented
  rw [List.length_map,mac.bytes_length] at count
  have clean : cleanMac 12 s = s.filter isxdigit := by
    rw [cleanMac_take,List.take_of_length_le (by omega)]
  have octets : ((List.range 6).map fun i => UInt8.ofNat (strtol16 (((s.filter isxdigit).drop (2 * i)).take 2))) =
      mac.bytes := by
    refine List.ext_getElem (by simp) fun i left right => ?_
    have value := fields_value documented (i := i) (by simpa using right)
    rw [List.getElem_map,List.getElem_range,value,List.getElem_map,UInt8.ofNat_toNat]
  rw [parseMacAddress]
  simp only [clean,octets,EtherAddr.ofBytes_bytes]
  rw [if_neg (by omega)]

theorem dis_runs (wild : Option EtherAddr) (s : List UInt8) : handleOpendropCommand wild [ascii "dis",s] =
    if s.length ≠ 17 then some [.print "invalid mac address\n"]
    else ((parseMacAddress s).or wild).map fun mac => [.httpsRequest (in6AddrToString (etherAddrToIn6Addr mac))] := by
  rw [handleOpendropCommand,if_neg (by decide),if_pos rfl]

end Parsing

theorem dis_contacts_iff (s : List UInt8) :
    (∀ wild, ContactsOnly s (handleOpendropCommand wild [ascii "dis",s])) ↔
      s.length ≠ 17 ∨ ∃ mac, Documented s mac := by
  constructor
  · intro contacts
    by_contra neither
    rw [not_or,not_ne_iff,not_exists] at neither
    -- With any address behind the pointer a request goes out.
    obtain ⟨effects,ran,silent⟩ := (contacts (some default)).other neither.2
    rw [dis_runs,if_neg (not_ne_iff.mpr neither.1)] at ran
    obtain ⟨mac,pointed⟩ : ∃ mac, (parseMacAddress s).or (some default) = some mac := by
      cases parseMacAddress s with
      | none => exact ⟨default,rfl⟩
      | some mac => exact ⟨mac,rfl⟩
    rw [pointed] at ran
    cases ran
    exact silent _ (List.mem_singleton_self _)
  · rintro (other | ⟨mac,documented⟩) wild
    · refine ⟨fun mac documented => absurd (documented_length documented) other,fun _ => ?_⟩
      rw [dis_runs,if_pos other]
      exact ⟨_,rfl,by simp⟩
    · refine ⟨fun other also => ?_,fun none_fits => absurd documented (none_fits mac)⟩
      rw [dis_runs,if_neg (not_ne_iff.mpr (documented_length also)),parse_documented also]
      exact ⟨_,_,rfl,in6_shows _,in6_linkLocal other,in6_inverse other⟩

-- Seventeen characters without a digit: the request goes to whatever the pointer
-- points to.
theorem dis_contacts_wild : ¬ ∀ s wild, ContactsOnly s (handleOpendropCommand wild [ascii "dis",s]) := by
  intro always
  have digits : (ascii "zz:zz:zz:zz:zz:zz").filter isxdigit = [] := by decide
  have undocumented : ∀ mac, ¬ Documented (ascii "zz:zz:zz:zz:zz:zz") mac := by
    intro mac documented
    have count := fields_count documented
    rw [digits,List.length_map,mac.bytes_length] at count
    cases count
  obtain ⟨effects,ran,silent⟩ := (always (ascii "zz:zz:zz:zz:zz:zz") (some ⟨2,0,0,0,0,2⟩)).other undocumented
  have request : handleOpendropCommand (some ⟨2,0,0,0,0,2⟩) [ascii "dis",ascii "zz:zz:zz:zz:zz:zz"] =
      some [.httpsRequest (ascii "fe80:0000:0000:0000:0000:00ff:fe00:0002")] := by
    decide +kernel
  rw [request] at ran
  cases ran
  exact silent _ (List.mem_singleton_self _)

end EspOwl.Opendrop
