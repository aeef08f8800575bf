/-
`authenticate.cc`, `authentication_realm.cc` and `base64.h`.

A request under a realm has to present a user and password of that realm in its
first `Authorization` header.  The decision splits the header value on spaces, decodes
the second piece, splits the result on `:`, and looks the pair up in the realm with
the longest name that is a prefix of the URI.
-/
import JustEnough.Server.RequestHandler

namespace JustEnough

/-! ### Base64 -/

def base64Alphabet : Str :=
  lit "ABCDEFGHIJKLMNOPQRSTUVWXYZabcdefghijklmnopqrstuvwxyz0123456789+/"

/-- `alphabet[(val >> valb) & 0x3F]`; the shift of an `int` keeps its sign. -/
def base64Char (val : BitVec 32) (valb : Nat) : UInt8 :=
  base64Alphabet.getD (val.sshiftRight valb &&& 0x3F#32).toNat 0

/-- The `while (valb >= 0)` loop of `base64_encode`. -/
def base64Emit (val : BitVec 32) (valb : Int) (out : Str) : Int × Str :=
  if 0 ≤ valb then base64Emit val (valb - 6) (out ++ [base64Char val valb.toNat]) else (valb, out)
termination_by (valb + 6).toNat

/-- The loop over the input; the accumulator is an `int` that wraps. -/
def base64EncodeLoop : Str → BitVec 32 → Int → Str → BitVec 32 × Int × Str
  | [], val, valb, out => (val, valb, out)
  | c :: cs, val, valb, out =>
    let val := (val <<< 8) + BitVec.ofNat 32 c.toNat
    match base64Emit val (valb + 8) out with
    | (valb, out) => base64EncodeLoop cs val valb out

/-- The `while (out.size() % 4)` loop. -/
def base64Pad (out : Str) : Str :=
  if out.length % 4 = 0 then out else base64Pad (out ++ [byte '='])
termination_by (4 - out.length % 4) % 4
decreasing_by
  simp only [List.length_append, List.length_singleton]
  omega

def base64Encode (input : Str) : Str :=
  match base64EncodeLoop input 0 (-6) [] with
  | (val, valb, out) =>
    base64Pad (if valb > -6 then out ++ [base64Char (val <<< 8) (valb + 8).toNat] else out)

/-- The table `T`: the place of a character in the alphabet, or -1. -/
def base64Table (c : UInt8) : Int :=
  match base64Alphabet.idxOf? c with
  | some i => i
  | none => -1

/-- The loop of `base64_decode`; the accumulator is an `int` that wraps. -/
def base64DecodeLoop : Str → BitVec 32 → Int → Str → Str
  | [], _, _, out => out
  | c :: cs, val, valb, out =>
    if base64Table c = -1 then out
    else
      let val := (val <<< 6) + BitVec.ofInt 32 (base64Table c)
      let valb := valb + 6
      if 0 ≤ valb then
        base64DecodeLoop cs val (valb - 8)
          (out ++ [UInt8.ofBitVec ((val.sshiftRight valb.toNat).truncate 8)])
      else base64DecodeLoop cs val valb out

def base64Decode (input : Str) : Str := base64DecodeLoop input 0 (-8) []

/-! ### Realms -/

structure AuthenticationRealm where
  realm : Str
  users : Std.TreeMap Str Str

def AuthenticationRealm.authenticate (r : AuthenticationRealm) (username password : Str) : Bool :=
  match r.users[username]? with
  | some found => found = password
  | none => false

/-- The realms by name; `addRealm` is the only way in, so a realm stands under its own name. -/
structure Authentication where
  realms : Std.TreeMap Str AuthenticationRealm
  named : ∀ (k : Str) (r : AuthenticationRealm), realms[k]? = some r → r.realm = k

namespace Authentication

/-- A new object has no realms. -/
def empty : Authentication where
  realms := ∅
  named := by simp

def addRealm (auth : Authentication) (r : AuthenticationRealm) : Authentication where
  realms := auth.realms.insert r.realm r
  named := by
    intro k r' h
    rw [Std.TreeMap.getElem?_insert] at h
    split at h
    · rename_i hk
      obtain rfl := Option.some.inj h
      exact Std.LawfulEqCmp.eq_of_compare hk
    · exact auth.named k r' h

def requestRequiresAuthentication (auth : Authentication) (req : Request) : Bool :=
  (mapHasPrefix auth.realms req.uri).isSome

/-- The value of the first `Authorization` header. -/
def authorization (req : Request) : Option Str :=
  (req.headers.find? fun header => header.1 = lit "Authorization").map (·.2)

def requestPassesAuthentication (auth : Authentication) (req : Request) : Bool :=
  match authorization req with
  | none => false
  | some value =>
    match split value (byte ' ') with
    | [scheme, b64Part] =>
      if scheme ≠ lit "Basic" then false
      else
        match split (base64Decode b64Part) (byte ':') with
        | [user, pass] =>
          match mapHasPrefix auth.realms req.uri with
          | some found => found.authenticate user pass
          | none => false
        | _ => false
    | _ => false

def generateFailedAuthenticationResponse (auth : Authentication) (req : Request)
    (resp : Response) : Response :=
  let resp := (resp.setStatus Response.code401Unauthorized).addHeader (lit "Content-Type")
    (lit "text/html")
  let resp :=
    match mapHasPrefix auth.realms req.uri with
    | some found =>
      resp.addHeader (lit "WWW-Authenticate") (lit "Basic realm=\"" ++ found.realm ++ lit "\"")
    | none => resp
  resp.setBody
    (lit "<html><body><h1>401 Unauthorized</h1><p>Invalid credentials</p></body></html>")

/-- Whatever the response held, a refusal is a 401. -/
theorem generateFailed_code (auth : Authentication) (req : Request) (resp : Response) :
    (auth.generateFailedAuthenticationResponse req resp).code = Response.code401Unauthorized := by
  unfold generateFailedAuthenticationResponse
  split <;> rfl

end Authentication

end JustEnough
