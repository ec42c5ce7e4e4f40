-- SUMMARY: The signed claims of a token, and the codec that makes them the identifier of a macaroon.
import EdgeReplica.Lib.Protobuf
import EdgeReplica.Protocol.Sync

/-!
# Token claims

The claims of a session token and of a sync token are one message. The codec is
generated by the build; what the tokens rely on is that decoding gives back what
was encoded.
-/

namespace EdgeReplica

structure TokenClaims where
  /-- Tells the two kinds of tokens apart: `session` or `sync`. -/
  purpose : String := ""
  userId : String := ""
  orgId : String := ""
  email : String := ""
  role : String := ""
  databaseId : String := ""
  direction : String := ""
deriving DecidableEq, Repr

class TokenClaimsCodec where
  encodeToVec : TokenClaims → Bytes
  decodeFromSlice : Bytes → Except String TokenClaims
  decode_encode (claims : TokenClaims) : decodeFromSlice (encodeToVec claims) = .ok claims

namespace TokenClaims

/-! ## The protobuf codec -/

/-- The fields under their tags: field numbers 1 and 10 to 15, length-delimited. -/
def fields (claims : TokenClaims) : List Protobuf.Field :=
  [(0x0A, claims.purpose), (0x52, claims.userId), (0x5A, claims.orgId), (0x62, claims.email),
    (0x6A, claims.role), (0x72, claims.databaseId), (0x7A, claims.direction)]

def ofFields (fields : List Protobuf.Field) : TokenClaims where
  purpose := Protobuf.get 0x0A fields
  userId := Protobuf.get 0x52 fields
  orgId := Protobuf.get 0x5A fields
  email := Protobuf.get 0x62 fields
  role := Protobuf.get 0x6A fields
  databaseId := Protobuf.get 0x72 fields
  direction := Protobuf.get 0x7A fields

theorem ofFields_present (claims : TokenClaims) :
    ofFields (Protobuf.present claims.fields) = claims := by
  have hnodup : (claims.fields.map Prod.fst).Nodup := by
    simp only [fields, List.map_cons, List.map_nil]
    decide
  simp only [ofFields, Protobuf.get_present hnodup]
  rfl

end TokenClaims

/-- The codec on the encodings it produces itself: each field once, none unknown. -/
abbrev TokenClaimsCodec.protobuf : TokenClaimsCodec where
  encodeToVec claims := Protobuf.write (Protobuf.present claims.fields)
  decodeFromSlice bytes :=
    match Protobuf.read bytes with
    | some fields => .ok (.ofFields fields)
    | none => .error "malformed message"
  decode_encode claims := by
    rw [Protobuf.read_write]
    exact congrArg Except.ok claims.ofFields_present

end EdgeReplica
