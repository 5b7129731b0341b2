/-
# `Go.Net` — `netip.ParseAddr`, `net.ParseIP` and the address classes of `net.IP`

An address is the list of its bytes, four or sixteen.  `parseAddr` follows
`netip.ParseAddr`: dotted decimal without leading zeros, or colon-separated
hexadecimal groups with at most one `::` and an optional dotted tail, and an
optional zone behind `%`.  `parseIP` is `net.ParseIP`, which refuses a zone
and returns sixteen bytes, an IPv4 address in its mapped form.
-/
import MiniGoAgent.Go.Str

namespace Go.Net

abbrev IP := List UInt8

/-- One field of a dotted address: decimal digits, at most 255, no leading
zero. -/
def parseOctet (field : Str) : Option UInt8 :=
  if field ≠ [] ∧ field.all isDigit ∧ (field.head? = some (byte '0') → field.length = 1) ∧
      decimal field ≤ 255 then some (decimal field).toUInt8
  else none

def parseIPv4 (s : Str) : Option IP :=
  match (splitByte (byte '.') s).mapM parseOctet with
  | some [a, b, c, d] => some [a, b, c, d]
  | _ => none

/-- The groups parsed so far, the position of `::` among the bytes, and the
text that is left: the locals of the loop of `parseIPv6`. -/
structure Groups where
  ip : IP := []
  ellipsis : Option Nat := none
  rest : Str := []

/-- The loop of `parseIPv6`; eight groups are the most an address can have. -/
def parseGroups : Nat → Groups → Option Groups
  | 0, g => some g
  | fuel + 1, g =>
    let digits := g.rest.takeWhile (fun c => (unhex c).isSome)
    let tail := g.rest.drop digits.length
    if digits = [] ∨ 4 < digits.length then none
    else
      match tail with
      | [] => some { g with ip := g.ip ++ group digits, rest := [] }
      | c :: more =>
        if c == byte '.' then
          if (g.ellipsis = none ∧ g.ip.length ≠ 12) ∨ 16 < g.ip.length + 4 then none
          else (parseIPv4 g.rest).map (fun v4 => { g with ip := g.ip ++ v4, rest := [] })
        else if c == byte ':' then
          match more with
          | [] => none
          | d :: more' =>
            let ip := g.ip ++ group digits
            if d == byte ':' then
              if g.ellipsis.isSome then none
              else
                let g' : Groups := { ip, ellipsis := some ip.length, rest := more' }
                if more' = [] then some g' else parseGroups fuel g'
            else parseGroups fuel { g with ip, rest := more }
        else none
where
  /-- The two bytes of a group. -/
  group (digits : Str) : IP :=
    let n := digits.foldl (fun n c => n * 16 + (unhex c).getD 0) 0
    [(n / 256).toUInt8, (n % 256).toUInt8]

/-- Sixteen bytes out of what the loop parsed: `::` stands for at least one
group of zeros. -/
def Groups.expand (g : Groups) : Option IP :=
  if g.rest ≠ [] then none
  else
    match g.ellipsis with
    | none => if g.ip.length = 16 then some g.ip else none
    | some e =>
      if 16 ≤ g.ip.length then none
      else some (g.ip.take e ++ List.replicate (16 - g.ip.length) 0 ++ g.ip.drop e)

/-- `parseIPv6` on the text before the zone. -/
def parseIPv6 (s : Str) : Option IP :=
  if hasPrefix s (lit "::") then
    let rest := s.drop 2
    if rest = [] then some (List.replicate 16 0)
    else (parseGroups 8 { ellipsis := some 0, rest }).bind Groups.expand
  else (parseGroups 8 { rest := s }).bind Groups.expand

/-- `netip.ParseAddr`: the bytes and the zone. -/
def parseAddr (s : Str) : Option (IP × Str) :=
  match s.find? (fun c => c == byte '.' || c == byte ':' || c == byte '%') with
  | none => none
  | some c =>
    if c == byte '.' then (parseIPv4 s).map (fun ip => (ip, []))
    else if c == byte ':' then
      match s.findIdx? (· == byte '%') with
      | none => (parseIPv6 s).map (fun ip => (ip, []))
      | some i =>
        let zone := s.drop (i + 1)
        if zone = [] then none else (parseIPv6 (s.take i)).map (fun ip => (ip, zone))
    else none

/-- The twelve bytes in front of a mapped IPv4 address. -/
def v4Prefix : IP := List.replicate 10 0 ++ [0xFF, 0xFF]

/-- `net.ParseIP`, always sixteen bytes. -/
def parseIP (s : Str) : Option IP :=
  match parseAddr s with
  | some (ip, []) => some (if ip.length = 4 then v4Prefix ++ ip else ip)
  | _ => none

def to4 (ip : IP) : Option IP :=
  if ip.length = 4 then some ip
  else if ip.length = 16 ∧ v4Prefix.isPrefixOf ip then some (ip.drop 12)
  else none

/-- `IPNet.Contains` for a network given by its address bytes and the length
of its mask: the leading bits agree, and the lengths do. -/
def inNetwork (network : IP) (ones : Nat) (ip : IP) : Bool :=
  let ip := (to4 ip).getD ip
  let bits (a : IP) : Nat := a.foldl (fun n b => n * 256 + b.toNat) 0
  ip.length == network.length &&
    bits ip / 2 ^ (8 * ip.length - ones) == bits network / 2 ^ (8 * ip.length - ones)

/-- `::1`. -/
def v6Loopback : IP := List.replicate 15 0 ++ [1]

def isLoopback (ip : IP) : Bool :=
  match to4 ip with
  | some v4 => v4.head? == some 127
  | none => ip == v6Loopback

def isUnspecified (ip : IP) : Bool :=
  to4 ip == some [0, 0, 0, 0] || ip == List.replicate 16 0

def isLinkLocalUnicast (ip : IP) : Bool :=
  match to4 ip with
  | some v4 => v4.take 2 == [169, 254]
  | none => inNetwork ([0xFE, 0x80] ++ List.replicate 14 0) 10 ip

def isLinkLocalMulticast (ip : IP) : Bool :=
  match to4 ip with
  | some v4 => v4.take 3 == [224, 0, 0]
  | none => match ip with
    | a :: b :: _ => ip.length == 16 && a == 0xFF && b &&& 0x0F == 0x02
    | _ => false

example : parseIP (lit "10.0.0.1") = some (v4Prefix ++ [10, 0, 0, 1]) := by decide +kernel
example : parseIP (lit "::1") = some v6Loopback := by decide +kernel
example : parseIP (lit "localhost") = none := by decide +kernel

end Go.Net
