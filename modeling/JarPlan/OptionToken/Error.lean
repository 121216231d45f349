import JarPlan.Bytes.Base64
/-!
# What is wrong with an option token

Writing fails where a string is too long for its length field; reading fails where the token is not
Base64 or the bytes in it are not an option stream.
-/

namespace JarPlan.OptionToken

/-- What is wrong with the bytes of a token. -/
inductive StreamError where
  | missingHeader
  | unexpectedEnd (position : Nat)
  | unexpectedRecord (tag : UInt8)
  | negativeCount (count : Int)
  | trailingBytes (bytes count : Nat)
  | truncatedCharacter
  | invalidLead (byte : UInt8)
  | loneSurrogate
deriving DecidableEq

def StreamError.message : StreamError → String
  | missingHeader => "missing stream header"
  | unexpectedEnd position => s!"unexpected end of stream at byte {position}"
  | unexpectedRecord tag => "unexpected record type 0x" ++ String.ofList (Bytes.hexByte true tag)
  | negativeCount count => s!"negative entry count {count}"
  | trailingBytes bytes count => s!"{bytes} trailing bytes after {count} entries"
  | truncatedCharacter => "truncated modified UTF-8 sequence"
  | invalidLead byte => "invalid modified UTF-8 lead byte 0x" ++ String.ofList (Bytes.hexByte true byte)
  | loneSurrogate => "invalid utf-16: lone surrogate found"

inductive Error where
  | stringTooLong (length : Nat) (preview : String)
  | tooManyEntries (count : Nat)
  | invalidBase64 (error : Bytes.Base64.Error)
  | malformed (error : StreamError)
deriving DecidableEq

def Error.message : Error → String
  | stringTooLong length preview =>
    s!"string of {length} encoded bytes exceeds the 65535 byte limit: {preview}"
  | tooManyEntries count => s!"too many options to encode: {count}"
  | invalidBase64 error => "invalid base64 in option token: " ++ error.message
  | malformed error => "malformed option stream: " ++ error.message

end JarPlan.OptionToken
