import Mathlib.Tactic

/-!
# IP addresses

Addresses of both families with the text syntax of the Rust standard library
and the arithmetic of address ranges. The parser works on the list of
characters and returns the rest of the input, as the library's parser does.
-/

namespace BuiltOnEnvoy.Foundations

open List

inductive IpAddr
  | v4 (bits : BitVec 32)
  | v6 (bits : BitVec 128)
  deriving DecidableEq, Repr

namespace IpAddr

def isIpv6 : IpAddr → Bool
  | v4 _ => false
  | v6 _ => true

/-- The number of bits of the address family. -/
def width : IpAddr → ℕ
  | v4 _ => 32
  | v6 _ => 128

def toNat : IpAddr → ℕ
  | v4 bits => bits.toNat
  | v6 bits => bits.toNat

/-- Add an offset within the address family; `none` on overflow. -/
def add (base : IpAddr) (offset : ℕ) : Option IpAddr :=
  match base with
  | v4 bits =>
    if bits.toNat + offset < 2 ^ 32 then some (v4 (BitVec.ofNat 32 (bits.toNat + offset))) else none
  | v6 bits =>
    if bits.toNat + offset < 2 ^ 128 then some (v6 (BitVec.ofNat 128 (bits.toNat + offset)))
    else none

theorem toNat_lt (ip : IpAddr) : ip.toNat < 2 ^ ip.width := by
  cases ip with
  | v4 bits => exact bits.isLt
  | v6 bits => exact bits.isLt

theorem add_of_lt {base : IpAddr} {offset : ℕ} (h : base.toNat + offset < 2 ^ base.width) :
    ∃ ip, base.add offset = some ip := by
  cases base with
  | v4 bits | v6 bits => exact ⟨_, if_pos h⟩

theorem add_spec {base ip : IpAddr} {offset : ℕ} (h : base.add offset = some ip) :
    ip.isIpv6 = base.isIpv6 ∧ ip.toNat = base.toNat + offset := by
  cases base with
  | v4 bits =>
    simp only [add] at h
    split_ifs at h with hlt
    cases h
    simpa [isIpv6, toNat] using hlt
  | v6 bits =>
    simp only [add] at h
    split_ifs at h with hlt
    cases h
    simpa [isIpv6, toNat] using hlt

theorem add_injective {base ip : IpAddr} {m n : ℕ} (hm : base.add m = some ip)
    (hn : base.add n = some ip) : m = n := by
  have h1 := (add_spec hm).2
  have h2 := (add_spec hn).2
  omega

theorem add_of_le {base ip : IpAddr} {m n : ℕ} (hn : base.add n = some ip) (hmn : m ≤ n) :
    ∃ ip', base.add m = some ip' := by
  cases base with
  | v4 bits =>
    simp only [add] at hn ⊢
    split_ifs at hn with hlt
    exact ⟨_, if_pos (by omega)⟩
  | v6 bits =>
    simp only [add] at hn ⊢
    split_ifs at hn with hlt
    exact ⟨_, if_pos (by omega)⟩

def digit? (radix : ℕ) (c : Char) : Option ℕ :=
  let value :=
    if '0' ≤ c ∧ c ≤ '9' then some (c.toNat - '0'.toNat)
    else if 'a' ≤ c ∧ c ≤ 'z' then some (c.toNat - 'a'.toNat + 10)
    else if 'A' ≤ c ∧ c ≤ 'Z' then some (c.toNat - 'A'.toNat + 10)
    else none
  value.filter (· < radix)

/-- Read at most `fuel` digits; returns their count, the value and the rest. -/
def readDigits (radix : ℕ) : ℕ → ℕ → ℕ → List Char → ℕ × ℕ × List Char
  | 0, count, value, rest => (count, value, rest)
  | _ + 1, count, value, [] => (count, value, [])
  | fuel + 1, count, value, c :: rest =>
    match digit? radix c with
    | none => (count, value, c :: rest)
    | some d => readDigits radix fuel (count + 1) (value * radix + d) rest

/-- A number of one to `maxDigits` digits below `bound`. One digit more than
allowed is read and rejected. -/
def readNumber (radix maxDigits bound : ℕ) (allowZeroPrefix : Bool) (input : List Char) :
    Option (ℕ × List Char) :=
  match readDigits radix (maxDigits + 1) 0 0 input with
  | (count, value, rest) =>
    if count = 0 ∨ maxDigits < count ∨ bound ≤ value then none
    else if !allowZeroPrefix && input.head? == some '0' && 1 < count then none
    else some (value, rest)

/-- A separator in front of every element but the first. -/
def readSeparator {α : Type*} (separator : Char) (index : ℕ)
    (inner : List Char → Option (α × List Char)) (input : List Char) : Option (α × List Char) :=
  if index = 0 then inner input
  else match input with
    | c :: rest => if c = separator then inner rest else none
    | [] => none

def readOctets : ℕ → ℕ → ℕ → List Char → Option (ℕ × List Char)
  | 0, _, value, rest => some (value, rest)
  | fuel + 1, index, value, rest =>
    match readSeparator '.' index (readNumber 10 3 256 false) rest with
    | none => none
    | some (octet, rest) => readOctets fuel (index + 1) (value * 256 + octet) rest

def readIpv4 (input : List Char) : Option (ℕ × List Char) :=
  readOctets 4 0 0 input

/-- Up to `limit` groups of an IPv6 address, the last two possibly written as
an IPv4 address. Returns the groups, whether they end in an IPv4 address, and
the rest. -/
def readGroups (limit : ℕ) : ℕ → ℕ → List ℕ → List Char → List ℕ × Bool × List Char
  | 0, _, groups, rest => (groups, false, rest)
  | fuel + 1, index, groups, rest =>
    let ipv4 := if index + 1 < limit then readSeparator ':' index readIpv4 rest else none
    match ipv4 with
    | some (value, rest) => (groups ++ [value / 65536, value % 65536], true, rest)
    | none =>
      match readSeparator ':' index (readNumber 16 4 65536 true) rest with
      | none => (groups, false, rest)
      | some (group, rest) => readGroups limit fuel (index + 1) (groups ++ [group]) rest

def groupsToNat (groups : List ℕ) : ℕ :=
  groups.foldl (fun value group => value * 65536 + group) 0

def readIpv6 (input : List Char) : Option (ℕ × List Char) :=
  match readGroups 8 8 0 [] input with
  | (head, headIpv4, rest) =>
    if head.length = 8 then some (groupsToNat head, rest)
    else if headIpv4 then none
    else match rest with
      | ':' :: ':' :: rest =>
        let limit := 8 - (head.length + 1)
        match readGroups limit limit 0 [] rest with
        | (tail, _, rest) =>
          let zeros := List.replicate (8 - head.length - tail.length) 0
          some (groupsToNat (head ++ zeros ++ tail), rest)
      | _ => none

/-- `str::parse::<IpAddr>`: the whole text is one address of either family. -/
def parse (text : String) : Option IpAddr :=
  match readIpv4 text.toList with
  | some (value, rest) => if rest = [] then some (v4 (BitVec.ofNat 32 value)) else none
  | none =>
    match readIpv6 text.toList with
    | some (value, rest) => if rest = [] then some (v6 (BitVec.ofNat 128 value)) else none
    | none => none

example : parse "fd00::1" = some (v6 (BitVec.ofNat 128 (0xfd00 * 2 ^ 112 + 1))) := by decide

/-- The octets of an IPv4 address in decimal. -/
def dotted (bits : BitVec 32) : List Char :=
  Nat.toDigits 10 (bits.toNat / 2 ^ 24 % 256) ++ '.' ::
    (Nat.toDigits 10 (bits.toNat / 2 ^ 16 % 256) ++ '.' ::
      (Nat.toDigits 10 (bits.toNat / 2 ^ 8 % 256) ++ '.' ::
        Nat.toDigits 10 (bits.toNat % 256)))

theorem toDigits_octet : ∀ n < 256, Nat.toDigits 10 n =
    if n < 10 then [Nat.digitChar n]
    else if n < 100 then [Nat.digitChar (n / 10), Nat.digitChar (n % 10)]
    else [Nat.digitChar (n / 100), Nat.digitChar (n / 10 % 10), Nat.digitChar (n % 10)] := by
  decide +kernel

theorem digit?_digitChar : ∀ d < 10, digit? 10 (Nat.digitChar d) = some d := by decide

theorem digitChar_ne_zero : ∀ d < 10, d ≠ 0 → Nat.digitChar d ≠ '0' := by decide

theorem readDigits_digit {d : ℕ} (hd : d < 10) (fuel count value : ℕ) (rest : List Char) :
    readDigits 10 (fuel + 1) count value (Nat.digitChar d :: rest) =
      readDigits 10 fuel (count + 1) (value * 10 + d) rest := by
  rw [readDigits, digit?_digitChar d hd]

variable {rest : List Char}

theorem readDigits_stop (hrest : ∀ c ∈ rest.head?, digit? 10 c = none) (fuel count value : ℕ) :
    readDigits 10 fuel count value rest = (count, value, rest) := by
  cases fuel with
  | zero => rfl
  | succ fuel =>
    cases rest with
    | nil => rfl
    | cons c rest => rw [readDigits, hrest c rfl]

theorem readNumber_octet {n : ℕ} (hn : n < 256) (hrest : ∀ c ∈ rest.head?, digit? 10 c = none) :
    readNumber 10 3 256 false (Nat.toDigits 10 n ++ rest) = some (n, rest) := by
  rw [toDigits_octet n hn]
  by_cases h10 : n < 10
  · rw [if_pos h10, readNumber, singleton_append, readDigits_digit h10, readDigits_stop hrest]
    simp
    omega
  · by_cases h100 : n < 100
    · have hhead := digitChar_ne_zero (n / 10) (by omega) (by omega)
      rw [if_neg h10, if_pos h100, readNumber, cons_append, singleton_append,
        readDigits_digit (by omega), readDigits_digit (by omega), readDigits_stop hrest]
      simp [hhead]
      omega
    · have hhead := digitChar_ne_zero (n / 100) (by omega) (by omega)
      rw [if_neg h10, if_neg h100, readNumber, cons_append, cons_append,
        singleton_append, readDigits_digit (by omega), readDigits_digit (by omega),
        readDigits_digit (by omega), readDigits_stop hrest]
      simp [hhead]
      omega

theorem readOctets_first {n : ℕ} (hn : n < 256) (hrest : ∀ c ∈ rest.head?, digit? 10 c = none)
    (fuel value : ℕ) :
    readOctets (fuel + 1) 0 value (Nat.toDigits 10 n ++ rest) =
      readOctets fuel 1 (value * 256 + n) rest := by
  simp [readOctets, readSeparator, readNumber_octet hn hrest]

theorem readOctets_octet {n : ℕ} (hn : n < 256) (hrest : ∀ c ∈ rest.head?, digit? 10 c = none)
    (fuel index value : ℕ) :
    readOctets (fuel + 1) (index + 1) value ('.' :: (Nat.toDigits 10 n ++ rest)) =
      readOctets fuel (index + 2) (value * 256 + n) rest := by
  simp [readOctets, readSeparator, readNumber_octet hn hrest]

theorem parse_dotted (bits : BitVec 32) : parse (String.ofList (dotted bits)) = some (v4 bits) := by
  have hdot : ∀ rest : List Char, ∀ c ∈ ('.' :: rest).head?, digit? 10 c = none := by
    intro rest c hc
    cases hc
    decide
  have hoctet : ∀ n : ℕ, n % 256 < 256 := fun n => Nat.mod_lt n (by norm_num)
  have hlast : Nat.toDigits 10 (bits.toNat % 256) =
      Nat.toDigits 10 (bits.toNat % 256) ++ [] := by rw [append_nil]
  have hread : readIpv4 (dotted bits) = some (bits.toNat, []) := by
    rw [readIpv4, dotted, readOctets_first (hoctet _) (hdot _),
      readOctets_octet (hoctet _) (hdot _), readOctets_octet (hoctet _) (hdot _), hlast,
      readOctets_octet (hoctet _) (by simp), readOctets]
    have := bits.isLt
    simp only [Option.some.injEq, Prod.mk.injEq, and_true]
    omega
  rw [parse, String.toList_ofList, hread]
  simp

end IpAddr

end BuiltOnEnvoy.Foundations
