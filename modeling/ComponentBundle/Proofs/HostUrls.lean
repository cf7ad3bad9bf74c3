import ComponentBundle.Command.Address
import ComponentBundle.Proofs.Placeholders
import ComponentBundle.Proofs.Splitting

/-!
The URL of a host as it is given and as it is told again. Reading takes the brackets of an address
away, and telling does not put them back: a name comes back as it was, an address never does.
-/
namespace ComponentBundle.Command
open ComponentBundle.Text ComponentBundle.Files ComponentBundle.Project

/-- A host as URLs spell it: a name, or an address in brackets, since an address may hold colons
    as the one before the port is. -/
inductive UrlHost : Text → Prop where
  | name {host : Text} (filled : host ≠ [])
      (plain : ∀ c ∈ host, c ≠ ':' ∧ c ≠ slash ∧ isHostBracket c = false) : UrlHost host
  | bracketed {inner : Text} (filled : inner ≠ [])
      (plain : ∀ c ∈ inner, c ≠ slash ∧ isHostBracket c = false) :
      UrlHost ('[' :: (inner ++ [']']))

def hostUrl (secure : Bool) (host : Text) (port : UInt16) : Text :=
  (if secure then "https" else "http" : Text)
    ++ ([':', '/', '/'] ++ (host ++ ':' :: ofNat port.toNat))

variable {host inner : Text}

theorem url_eq_hostUrl (address : Address) (defaultPort : UInt16) :
    address.url defaultPort
      = hostUrl address.secure address.hostName (address.port.getD defaultPort) := rfl

theorem hostUrl_injective {secure : Bool} {other : Text} {port : UInt16}
    (same : hostUrl secure host port = hostUrl secure other port) : host = other :=
  List.append_cancel_right (List.append_cancel_left (List.append_cancel_left same))

theorem port?_ofNat (port : UInt16) : port? (ofNat port.toNat) = some port := by
  have small : port.toNat < 0x10000 := port.toNat_lt
  rw [port?, Bundle.natural?_ofNat, Option.bind_some, if_pos small, UInt16.ofNat_toNat]

theorem withoutBrackets_plain (plain : ∀ c ∈ host, isHostBracket c = false) :
    withoutBrackets host = host := by
  have keeps {t : Text} (free : ∀ c ∈ t, isHostBracket c = false) :
      t.dropWhile isHostBracket = t := by
    cases t with
    | nil => rfl
    | cons c t => exact List.dropWhile_cons_of_neg (by simp [free c List.mem_cons_self])
  have backwards : ∀ c ∈ host.reverse, isHostBracket c = false := by
    intro c inside
    exact plain c (List.mem_reverse.1 inside)
  rw [withoutBrackets, keeps plain, keeps backwards, List.reverse_reverse]

theorem withoutBrackets_bracketed (filled : inner ≠ [])
    (plain : ∀ c ∈ inner, isHostBracket c = false) :
    withoutBrackets ('[' :: (inner ++ [']'])) = inner := by
  have opened : ('[' :: (inner ++ [']'])).dropWhile isHostBracket = inner ++ [']'] := by
    obtain ⟨c, more, rfl⟩ := List.exists_cons_of_ne_nil filled
    rw [List.dropWhile_cons_of_pos rfl, List.cons_append,
      List.dropWhile_cons_of_neg (by simp [plain c List.mem_cons_self])]
  have closed : (inner ++ [']']).reverse.dropWhile isHostBracket
      = inner.reverse.dropWhile isHostBracket := by
    rw [List.reverse_append]
    exact List.dropWhile_cons_of_pos rfl
  have whole := withoutBrackets_plain plain
  have first : inner.dropWhile isHostBracket = inner := by
    obtain ⟨c, more, rfl⟩ := List.exists_cons_of_ne_nil filled
    exact List.dropWhile_cons_of_neg (by simp [plain c List.mem_cons_self])
  rw [withoutBrackets, first] at whole
  rw [withoutBrackets, opened, closed, whole]

theorem hostAndPort_port (secure : Bool) (host : Text) (port : UInt16) :
    hostAndPort secure (host ++ ':' :: ofNat port.toNat)
      = .ok ⟨secure, some (withoutBrackets host), some port⟩ := by
  have digits := Bundle.ofNat_digits port.toNat
  have colonFree : ':' ∉ ofNat port.toNat := fun inside => absurd (digits ':' inside) (by decide)
  have closerFree : ']' ∉ ofNat port.toNat := fun inside => absurd (digits ']' inside) (by decide)
  rw [hostAndPort, splitLast?_append colonFree]
  simp only [List.contains_eq_mem, closerFree, decide_false, Bool.false_eq_true, if_false,
    port?_ofNat]

theorem withoutSlashesBehind_port (host : Text) (port : UInt16) (slashes : Nat) :
    withoutSlashesBehind (host ++ ':' :: ofNat port.toNat ++ List.replicate slashes slash)
      = host ++ ':' :: ofNat port.toNat := by
  have all : ∀ c ∈ List.replicate slashes slash, decide (c = slash) = true := by
    intro c inside
    exact decide_eq_true (List.eq_of_mem_replicate inside)
  have filled : ofNat port.toNat ≠ [] := Nat.toDigits_ne_nil
  have other : (ofNat port.toNat).getLast filled ≠ slash := by
    intro same
    have digit := Bundle.ofNat_digits port.toNat _ (List.getLast_mem filled)
    rw [same] at digit
    contradiction
  rw [withoutSlashesBehind, List.reverse_append, List.reverse_replicate,
    List.dropWhile_append_of_pos all, ← List.dropLast_append_getLast filled]
  simp [other]

theorem readAddress_hostUrl (secure : Bool) (host : Text) (port : UInt16) (slashes : Nat) :
    readAddress (hostUrl secure host port ++ List.replicate slashes slash)
      = .ok ⟨secure, some (withoutBrackets host), some port⟩ := by
  have cut {scheme : Text} (free : ':' ∉ scheme) (rest : Text) :
      splitFirst? [':', '/', '/'] (scheme ++ ([':', '/', '/'] ++ rest)) = some (scheme, rest) := by
    have here : splitFirst? [':', '/', '/'] ([':', '/', '/'] ++ rest) = some ([], rest) := by
      simp [splitFirst?, after?]
    rw [splitFirst?_append free, here]
    simp
  have authority := withoutSlashesBehind_port host port slashes
  rw [readAddress, hostUrl, List.append_assoc, List.append_assoc]
  cases secure with
  | false =>
    rw [if_neg (by decide), cut (by decide)]
    simp only [authority]
    exact hostAndPort_port false host port
  | true =>
    rw [if_pos rfl, cut (by decide)]
    simp only [authority]
    exact hostAndPort_port true host port

theorem hostName_of_filled {host : Text} (filled : host ≠ []) (secure : Bool)
    (port : Option UInt16) : (Address.mk secure (some host) port).hostName
      = if host = [':', ':', '1'] then Address.localHost else host := by
  simp [Address.hostName, filled]

/-- The URL of a host is told as it was given exactly if the host is a name. An address in brackets
    is told without them, and the short address of the local host as its name. -/
theorem url_reproduced_iff {host : Text} (spelled : UrlHost host) (secure : Bool) (port : UInt16)
    (slashes : Nat) :
    ∃ address, readAddress (hostUrl secure host port ++ List.replicate slashes slash)
        = .ok address ∧
      ∀ defaultPort,
        (address.url defaultPort = hostUrl secure host port ↔ '[' ∉ host) ∧
        ∀ inner, host = '[' :: (inner ++ [']']) → address.url defaultPort = hostUrl secure
          (if inner = [':', ':', '1'] then Address.localHost else inner) port := by
  refine ⟨_, readAddress_hostUrl secure host port slashes, fun defaultPort => ?_⟩
  rw [url_eq_hostUrl]
  cases spelled with
  | name filled plain =>
    have same : withoutBrackets host = host := withoutBrackets_plain fun c inside =>
      (plain c inside).2.2
    have free : '[' ∉ host := fun inside => absurd (plain '[' inside).2.2 (by decide)
    have named : host ≠ [':', ':', '1'] := by
      rintro rfl
      exact (plain ':' List.mem_cons_self).1 rfl
    rw [same, hostName_of_filled filled, if_neg named]
    refine ⟨iff_of_true rfl free, ?_⟩
    rintro inner rfl
    exact absurd List.mem_cons_self free
  | @bracketed inner filled plain =>
    have free : ∀ c ∈ inner, isHostBracket c = false := fun c inside => (plain c inside).2
    rw [withoutBrackets_bracketed filled free, hostName_of_filled filled]
    constructor
    · refine iff_of_false (fun same => ?_) (not_not_intro List.mem_cons_self)
      have shown := hostUrl_injective same
      have opened : '[' ∈ if inner = [':', ':', '1'] then Address.localHost else inner := by
        rw [shown]
        exact List.mem_cons_self
      split at opened
      · exact absurd opened (by decide)
      · exact absurd (free '[' opened) (by decide)
    · intro other same
      obtain rfl : inner = other := List.append_cancel_right (List.cons.inj same).2
      rfl

theorem cdn_url_reproduced : UrlHost "cdn.example.test" ∧
    ∃ address, readAddress "https://cdn.example.test:8443//" = .ok address ∧
      address.url 4205 = "https://cdn.example.test:8443" := by
  have spelled : UrlHost "cdn.example.test" :=
    .name (by decide) (by simp [isHostBracket, slash])
  obtain ⟨address, read, told⟩ := url_reproduced_iff spelled true 8443 2
  exact ⟨spelled, address, read, (told 4205).1.2 (by decide +kernel)⟩

theorem bracketed_address_bared :
    (readAddress "http://[2001:db8::1]:4205").map (fun address => address.url 80)
        = .ok "http://2001:db8::1:4205" ∧
      ("http://2001:db8::1:4205" : Text) ≠ "http://[2001:db8::1]:4205" := by
  decide +kernel

end ComponentBundle.Command
