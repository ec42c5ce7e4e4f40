-- SUMMARY: Wire types of the sync WebSocket: page hashes, `SyncMessage`, and the errors of a frame.
import Mathlib.Data.List.Basic
import Mathlib.Data.Set.Function

/-!
# Sync wire types

The messages that flow over the sync WebSocket, in either direction. A frame is
one version byte followed by the encoded message; the types here are what both
peers decode to. BLAKE3 is a library of its own, so it enters as a parameter:
results that need the digest to be free of collisions on the pages at hand say
so.
-/

namespace EdgeReplica

/-- `bytes::Bytes`, `Vec<u8>` and `&[u8]`. -/
abbrev Bytes := List UInt8

/-- The `blake3` crate, as far as this program calls it: a digest of a byte
string. A `Hasher` that is fed several pieces digests their concatenation. -/
class Blake3 where
  hash : Bytes → Bytes

/-- The wire-protocol version, the first byte of every frame. -/
def PROTOCOL_VERSION : UInt8 := 1

/-- Digest of a raw page. Both peers call this one function. -/
def pageHash [Blake3] (data : Bytes) : Bytes := Blake3.hash data

/-- What BLAKE3 makes of three one-byte pages. -/
def Blake3.samples : List (Bytes × Bytes) :=
  [([1], [72, 252, 114, 31, 187, 193, 114, 224, 146, 95, 162, 122, 241, 103, 29, 226,
      37, 186, 146, 113, 52, 128, 41, 152, 177, 10, 21, 104, 161, 136, 101, 43]),
   ([2], [171, 19, 190, 223, 66, 232, 75, 174, 15, 124, 98, 199, 221, 106, 138, 218,
      87, 30, 136, 41, 190, 214, 234, 85, 130, 23, 240, 54, 27, 94, 37, 208]),
   ([3], [225, 224, 232, 29, 110, 163, 155, 12, 248, 184, 111, 253, 68, 9, 33, 1,
      31, 87, 64, 12, 188, 63, 118, 168, 161, 113, 144, 106, 155, 141, 117, 5])]

/-- The digest on the sample pages, for runs on fixed inputs. -/
abbrev Blake3.onSamples : Blake3 where
  hash data := (Blake3.samples.lookup data).getD []

theorem Blake3.onSamples_injOn :
    Set.InjOn (@pageHash Blake3.onSamples) { data | data ∈ Blake3.samples.map Prod.fst } := by
  intro a ha b hb hab
  have hsamples : ∀ a ∈ Blake3.samples.map Prod.fst, ∀ b ∈ Blake3.samples.map Prod.fst,
      @pageHash Blake3.onSamples a = @pageHash Blake3.onSamples b → a = b := by decide
  exact hsamples a ha b hb hab

structure PageDataEntry where
  pageNo : UInt32
  data : Bytes
deriving DecidableEq, Repr

/-- The envelope that flows in either direction. Push or pull is not on the
wire: it comes from the verified sync token. -/
inductive SyncMessage where
  | hello (protocolVersion pageSize maxPage : UInt32)
  | helloReply (protocolVersion pageSize maxPage : UInt32)
  | pageHash (pageNo : UInt32) (hash : Bytes)
  | pageHashBatch (startPage endPage : UInt32) (combinedHash : Bytes)
  | requestPage (pageNo : UInt32)
  | requestPages (pageNumbers : List UInt32)
  | hashMismatch (pageNo : UInt32)
  | hashMismatchBatch (pageNumbers : List UInt32)
  | pageData (pageNo : UInt32) (data : Bytes)
  | pageDataBatch (pages : List PageDataEntry)
  | complete
  | syncComplete (pagesTransferred bytesTransferred : UInt64)
  | error (message : String)
deriving DecidableEq, Repr

/-- The pages whose bytes a message carries, in order. -/
def SyncMessage.entries : SyncMessage → List PageDataEntry
  | .pageData pageNo data => [⟨pageNo, data⟩]
  | .pageDataBatch pages => pages
  | _ => []

/-- The message carries bytes of page `p`. -/
def SyncMessage.carries (p : UInt32) (msg : SyncMessage) : Bool :=
  msg.entries.any fun entry => entry.pageNo == p

/-- The message asks for page `p`. -/
def SyncMessage.requests (p : UInt32) : SyncMessage → Bool
  | .requestPage pageNo => pageNo == p
  | .requestPages pageNumbers => pageNumbers.contains p
  | _ => false

/-- Errors of decoding or encoding a frame. -/
inductive FrameError where
  | empty
  | versionMismatch (ours theirs : UInt8)
  | decode (message : String)
  | encode (message : String)
deriving DecidableEq, Repr

def FrameError.toString : FrameError → String
  | .empty => "frame is empty (no version byte)"
  | .versionMismatch ours theirs =>
    s!"protocol_version mismatch: this peer speaks {ours}, frame announced {theirs}"
  | .decode message => s!"msgpack decode: {message}"
  | .encode message => s!"msgpack encode: {message}"

/-- The version carried in `Hello`: the frame byte, widened to the `u32` field. -/
def HANDSHAKE_VERSION : UInt32 := PROTOCOL_VERSION.toUInt32

end EdgeReplica
