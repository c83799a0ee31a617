import C2Engine.Python.Str

/-!
# IP literals

`ipaddress.ip_address` of Python 3.12: the literals of IPv4 and IPv6 addresses and the addresses
they denote. An IPv6 literal may carry a zone after `%`.

## Main definitions

* `IpAddress`: an address.
* `parseIpv4`, `parseIpv6`, `ipAddress`: the address of a literal, `none` where the constructor
  raises `ValueError`.
-/

namespace C2Engine.Python

/-- An IP address; an IPv6 address may have a zone. -/
inductive IpAddress where
  | v4 (value : ℕ)
  | v6 (value : ℕ) (zone : Option PyStr)
  deriving DecidableEq

/-- The value of a string of digits in the given base. -/
def digitsValue (base : ℕ) (digit : CodePoint → ℕ) (s : PyStr) : ℕ :=
  s.foldl (fun n c => n * base + digit c) 0

/-- The value of an ASCII digit. -/
def decValue (c : CodePoint) : ℕ := c.val - 48

/-- The value of a hexadecimal digit. -/
def hexValue (c : CodePoint) : ℕ :=
  if c.isAsciiDigit then c.val - 48
  else if c.between 'a' 'f' then c.val - 87
  else c.val - 55

/-- `IPv4Address._parse_octet`. -/
def parseOctet (s : PyStr) : Option ℕ :=
  if s.isEmpty || !s.all CodePoint.isAsciiDigit || 3 < s.length then none
  else if s != str "0" && s.head? == some (cp '0') then none
  else
    let n := digitsValue 10 decValue s
    if 255 < n then none else some n

/-- `IPv4Address(s)`. -/
def parseIpv4 (s : PyStr) : Option ℕ :=
  if s.elem (cp '/') then none
  else match (PyStr.split (cp '.') s).mapM parseOctet with
    | some [a, b, c, d] => some (((a * 256 + b) * 256 + c) * 256 + d)
    | _ => none

/-- `IPv6Address._parse_hextet`. -/
def parseHextet (s : PyStr) : Option ℕ :=
  if s.isEmpty || !s.all CodePoint.isHexDigit || 4 < s.length then none
  else some (digitsValue 16 hexValue s)

/-- The value of a list of hextets, 16 bits each, in front of the value `acc`. -/
def hextetsValue (acc : ℕ) (parts : List PyStr) : Option ℕ :=
  (parts.mapM parseHextet).map fun ns => ns.foldl (fun n h => n * 0x10000 + h) acc

/-- The hextets of `IPv6Address._ip_int_from_string`: with the IPv4 suffix rewritten to two
hextets, held by their values. -/
def ipv6Parts (s : PyStr) : Option (List PyStr × Option (ℕ × ℕ)) :=
  let parts := PyStr.split (cp ':') s
  if parts.length < 3 then none
  else match parts.getLast? with
    | some last =>
      if last.elem (cp '.') then
        (parseIpv4 last).map fun n => (parts.dropLast, some (n / 0x10000, n % 0x10000))
      else some (parts, none)
    | none => none

/-- `IPv6Address._ip_int_from_string`: the hextets before and after `::`, which stands for the
hextets that are missing from eight. -/
def ipv6Value (s : PyStr) : Option ℕ := do
  if s.isEmpty then none
  let (heads, suffix) ← ipv6Parts s
  let n := heads.length + (if suffix.isSome then 2 else 0)
  if 9 < n then none
  -- the places of an empty part, the two ends apart
  let inner := if suffix.isSome then heads.tail else heads.tail.dropLast
  let tailValue (acc : ℕ) := (suffix.map fun (a, b) => (acc * 0x10000 + a) * 0x10000 + b).getD acc
  match inner.filter List.isEmpty with
  | [] =>
    if n ≠ 8 then none
    else (hextetsValue 0 heads).map tailValue
  | [_] =>
    let skip := 1 + inner.findIdx List.isEmpty
    let hi := heads.take skip
    let lo := heads.drop (skip + 1)
    let hi ← if (hi.head?.any List.isEmpty) then (if hi.length = 1 then some [] else none)
      else some hi
    let lo ← if suffix.isNone && lo.getLast?.any List.isEmpty then
        (if lo.length = 1 then some [] else none)
      else some lo
    let known := hi.length + lo.length + (if suffix.isSome then 2 else 0)
    if 8 ≤ known then none
    else do
      let top ← hextetsValue 0 hi
      (hextetsValue (top * 0x10000 ^ (8 - known)) lo).map tailValue
  | _ => none

/-- `IPv6Address(s)`, with `_split_scope_id` taking the zone off first. -/
def parseIpv6 (s : PyStr) : Option (ℕ × Option PyStr) :=
  if s.elem (cp '/') then none
  else
    let (addr, sep, zone) := PyStr.partition (cp '%') s
    if !sep then (ipv6Value addr).map fun n => (n, none)
    else if zone.isEmpty || zone.elem (cp '%') then none
    else (ipv6Value addr).map fun n => (n, some zone)

/-- `ipaddress.ip_address(s)`; `none` is its `ValueError`. -/
def ipAddress (s : PyStr) : Option IpAddress :=
  match parseIpv4 s with
  | some n => some (.v4 n)
  | none => (parseIpv6 s).map fun (n, zone) => .v6 n zone

/-- An IP literal: a string `ipaddress.ip_address` accepts. -/
def IsIpLiteral (s : PyStr) : Prop := (ipAddress s).isSome

instance (s : PyStr) : Decidable (IsIpLiteral s) := inferInstanceAs (Decidable (_ = true))

theorem IsIpLiteral.ne_nil {s : PyStr} (h : IsIpLiteral s) : s ≠ [] := by
  rintro rfl
  exact absurd h (by decide)

example : ipAddress (str "2001:db8::1.2.3.4") =
    some (.v6 0x20010db8000000000000000001020304 none) := by
  decide

example : ¬ IsIpLiteral (str "1:2:3:4:5:6:7::8:9") ∧ ¬ IsIpLiteral (str "01.2.3.4") := by decide

end C2Engine.Python
