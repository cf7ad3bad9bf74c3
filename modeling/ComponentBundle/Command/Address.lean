import ComponentBundle.Project.Settings

/-!
Addresses as they are given on the command line: a scheme, a host, and perhaps a port.
-/
namespace ComponentBundle.Command
open ComponentBundle.Text ComponentBundle.Files ComponentBundle.Project

inductive AddressFault where
  | noScheme (url : Text)
  | unknownScheme (scheme : Text)
  | badPort (port : Text)
  deriving Repr, DecidableEq

def AddressFault.message : AddressFault → String
  | .noScheme url => "Base URL must look like http://host:port, got " ++ url.toString
  | .unknownScheme scheme => "Unsupported scheme in base URL: " ++ scheme.toString
  | .badPort port => "Invalid port in base URL: " ++ port.toString

def isHostBracket (c : Char) : Bool := c = '[' || c = ']'

def withoutBrackets (host : Text) : Text :=
  ((host.dropWhile isHostBracket).reverse.dropWhile isHostBracket).reverse

def port? (t : Text) : Option UInt16 :=
  (natural? t).bind fun n => if n < 0x10000 then some (UInt16.ofNat n) else none

def hostAndPort (secure : Bool) (authority : Text) : Except AddressFault Address :=
  match splitLast? ':' authority with
  | some (host, port) =>
    if port.contains ']' then .ok ⟨secure, some (withoutBrackets authority), none⟩
    else
      match port? port with
      | some number => .ok ⟨secure, some (withoutBrackets host), some number⟩
      | none => .error (.badPort port)
  | none => .ok ⟨secure, some (withoutBrackets authority), none⟩

def readAddress (url : Text) : Except AddressFault Address :=
  match splitFirst? [':', '/', '/'] url with
  | none => .error (.noScheme url)
  | some (scheme, rest) =>
    let authority := withoutSlashesBehind rest
    if scheme = ['h', 't', 't', 'p'] then hostAndPort false authority
    else if scheme = ['h', 't', 't', 'p', 's'] then hostAndPort true authority
    else .error (.unknownScheme scheme)

end ComponentBundle.Command
