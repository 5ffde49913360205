import Recipe.Domain.Basic
import Recipe.Text.Utf8
import Recipe.Uri.Address
import Recipe.Uri.Percent

/-!
# Hosts

The host of a uri is a domain name or an address. Schemes with hosts read it as one of these; for
all other schemes a host that is no address of eight pieces in brackets is any text.
-/

namespace Recipe

/-- Why a text is no uri. -/
inductive UriError where
  /-- It does not begin with a scheme. -/
  | relative
  /-- There is no host where there has to be one. -/
  | emptyHost
  /-- The host is no domain name. -/
  | badName
  /-- The number after the host is none, or too large. -/
  | badNumber
  /-- The host is no address of four bytes, though its last part is a number. -/
  | badFour
  /-- The host is in brackets and no address of eight pieces. -/
  | badEight
  /-- The host has a character that it cannot have. -/
  | badCharacter
deriving DecidableEq, Repr

/-- The error in words. -/
def UriError.message : UriError → String
  | relative => "relative URL without a base"
  | emptyHost => "empty host"
  | badName => "invalid international domain name"
  | badNumber => "invalid port number"
  | badFour => "invalid IPv4 address"
  | badEight => "invalid IPv6 address"
  | badCharacter => "invalid domain character"

namespace UriHost

/-- Reads an address in brackets of which the first has been read. -/
def bracketed (cs : List Char) : Except UriError (List Char) :=
  match if cs.getLast? = some ']' then Address.eight? cs.dropLast else none with
  | some ps => .ok ('[' :: Address.eightText ps ++ [']'])
  | none => .error .badEight

/-- Reads the host of a scheme with hosts. -/
def named (cs : List Char) : Except UriError (List Char) :=
  match cs with
  | '[' :: rest => bracketed rest
  | _ =>
    match (Text.ofUtf8? (Percent.decode cs)).bind Domain.toAscii? with
    | none => .error .badName
    | some [] => .error .emptyHost
    | some name =>
      if Address.endsInNumber name then
        match Address.four? name with
        | some n => .ok (Address.fourText n)
        | none => .error .badFour
      else .ok name

/-- The characters that no host has. -/
def isForbidden (c : Char) : Bool :=
  "\x00\t\n\r #/:<>?@[\\]^|".toList.contains c

/-- Reads the host of any other scheme. -/
def general (cs : List Char) : Except UriError (List Char) :=
  match cs with
  | '[' :: rest => bracketed rest
  | _ => if cs.any isForbidden then .error .badCharacter
    else .ok (Percent.encode Percent.isControl cs)

end UriHost

end Recipe
