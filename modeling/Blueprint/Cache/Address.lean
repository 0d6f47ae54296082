import Blueprint.Url.Basic

/-!
Addresses of shared stores. A store is reached over the network, at a host and with the number of a
database as its path, or through a socket at a path of this machine.
-/

set_option autoImplicit false

namespace Blueprint.Cache

/-- A text without slashes at either end. -/
def trimSlashes (text : List Char) : List Char :=
  ((text.dropWhile (· == '/')).reverse.dropWhile (· == '/')).reverse

/-- The number of a database: nothing, or an integer of 64 bits. -/
def isDatabase (text : List Char) : Bool :=
  let isNumber (digits : List Char) (limit : Nat) : Bool :=
    !digits.isEmpty && digits.all Char.isDigit && Text.numberOf 10 digits ≤ limit
  match text with
  | [] => true
  | '-' :: digits => isNumber digits (Nat.pow 2 63)
  | '+' :: digits => isNumber digits (Nat.pow 2 63 - 1)
  | digits => isNumber digits (Nat.pow 2 63 - 1)

/-- Whether a text is the address of a shared store. -/
def isStoreUrl (text : String) : Bool :=
  match Url.ofString? text with
  | none => false
  | some url =>
    if url.scheme ∈ ["redis", "valkey"] then
      url.host.any (· ≠ "") && isDatabase (trimSlashes url.path)
    else if url.scheme ∈ ["unix", "redis+unix", "valkey+unix"] then
      url.host.all (· ∈ ["", "localhost"]) && url.path.head? == some '/'
    else false

end Blueprint.Cache
