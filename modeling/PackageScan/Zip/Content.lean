import PackageScan.Zip.Crc32
import PackageScan.Zip.Directory
import PackageScan.Zip.Inflate

/-!
# The content of an archive entry

`Zip.pull` gives the content of an entry, or its first bytes if it is longer than wanted. The
declared size plays no part in it. Content is decoded a window at a time, and only as many windows
as it takes to hold the bytes that are wanted; a fault in the last of these windows counts even if
it lies behind those bytes. The checksum of content that is cut off is not looked at.
-/

namespace PackageScan

namespace Zip

/-- Why the content of an entry cannot be read. -/
inductive ContentFault where
  /-- The archive is not what its directory says. -/
  | structure (fault : StructureFault)
  /-- The content is encrypted. -/
  | encrypted
  /-- The content is compressed in another way than `Inflate` decodes. -/
  | unknownMethod
  /-- The compressed content is malformed or ends too early. -/
  | corruptStream
  /-- The content has another checksum. -/
  | wrongChecksum
  deriving DecidableEq, Repr

/-- The fault in words. -/
def ContentFault.message : ContentFault → String
  | .structure fault => fault.message
  | encrypted => "password required to decrypt file"
  | unknownMethod => "compression method not supported"
  | corruptStream => "corrupt deflate stream"
  | wrongChecksum => "invalid checksum"

/-- Number of bytes that are decoded together. -/
def windowSize : Nat := 32768

/-- The smallest number of bytes that fills whole windows and holds `n` bytes. -/
def wholeWindows (n : Nat) : Nat := (n + windowSize - 1) / windowSize * windowSize

/-- The first bytes of content, where `wanted` are more than enough; otherwise all of it, with the
right checksum. -/
def settle (r : Record) (wanted : Nat) (content : ByteArray) : Except ContentFault ByteArray :=
  if wanted ≤ content.size then .ok (content.extract 0 wanted)
  else if Crc32.checksum content = r.checksum then .ok content
  else .error .wrongChecksum

/-- The content of an entry if it is shorter than `wanted`, else the first `wanted` bytes. -/
def pull (data : ByteArray) (r : Record) (wanted : Nat) : Except ContentFault ByteArray := do
  if r.encrypted then .error .encrypted
  let start ← (contentStart data r).mapError .structure
  let packed := data.extract start (min (start + r.packedSize) data.size)
  if r.method = 0 then settle r wanted packed
  else if r.method = 8 then
    match Inflate.decode packed (wholeWindows wanted) with
    | (_, .malformed) => .error .corruptStream
    | (content, .truncated) =>
      if wanted ≤ content.size then .ok (content.extract 0 wanted) else .error .corruptStream
    | (content, _) => settle r wanted content
  else .error .unknownMethod

end Zip

end PackageScan
