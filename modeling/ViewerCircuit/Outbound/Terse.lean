import ViewerCircuit.Message.Basic
import ViewerCircuit.Outbound.Quantize

/-!
# Terse updates

The movement of an avatar or a prim, packed into a block of bytes.
-/
namespace ViewerCircuit

structure Movement where
  localId : UInt32 := 0
  state : UInt8 := 0
  position : Vec3 := .zero
  velocity : Vec3 := .zero
  acceleration : Vec3 := .zero
  rotation : Quat := .identity
  angularVelocity : Vec3 := .zero
  deriving DecidableEq, Repr

namespace Movement

def velocityRange : Range := .symmetric 128
def accelerationRange : Range := .symmetric 64
def rotationRange : Range := .symmetric 1
def angularVelocityRange : Range := .symmetric 64

def packed (range : Range) (x : F32) : Bytes :=
  littleEndian 2 ((range.quantize? x).getD 0).toNat

def packedVec3 (range : Range) (v : Vec3) : Bytes :=
  packed range v.x ++ packed range v.y ++ packed range v.z

def plain (x : F32) : Bytes := littleEndian 4 x.bits.toNat

def collisionPlane : Bytes := plain .zero ++ plain .zero ++ plain .zero ++ plain .one

/-- The packed movement; a rotation that is zero throughout counts as none. -/
def block (u : Movement) (isAvatar : Bool) : Bytes :=
  let rotation := if u.rotation.isZero then Quat.identity else u.rotation
  littleEndian 4 u.localId.toNat ++ [u.state, if isAvatar then 1 else 0] ++
    (if isAvatar then collisionPlane else []) ++
    plain u.position.x ++ plain u.position.y ++ plain u.position.z ++
    packedVec3 velocityRange u.velocity ++ packedVec3 accelerationRange u.acceleration ++
    packed rotationRange rotation.x ++ packed rotationRange rotation.y ++
    packed rotationRange rotation.z ++ packed rotationRange rotation.w ++
    packedVec3 angularVelocityRange u.angularVelocity

end Movement
end ViewerCircuit
