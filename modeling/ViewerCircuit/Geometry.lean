import ViewerCircuit.Number.F32
import ViewerCircuit.Wire.Codec

/-!
# Vectors and rotations

A rotation travels as the first three components of its unit quaternion with non-negative last
component; the reader restores the last one from the length.
-/
namespace ViewerCircuit

structure Vec3 where
  x : F32
  y : F32
  z : F32
  deriving DecidableEq, Repr

structure Quat where
  x : F32
  y : F32
  z : F32
  w : F32
  deriving DecidableEq, Repr

namespace Vec3

def zero : Vec3 := ⟨.zero, .zero, .zero⟩

instance : Inhabited Vec3 := ⟨zero⟩

def codec : Codec Vec3 :=
  (Codec.f32.seq (Codec.f32.seq Codec.f32)).view (fun (x, y, z) => ⟨x, y, z⟩)
    fun v => (v.x, v.y, v.z)

end Vec3

namespace Quat

def identity : Quat := ⟨.zero, .zero, .zero, .one⟩

instance : Inhabited Quat := ⟨identity⟩

def isZero (q : Quat) : Bool :=
  q.x.toFloat32 == 0 && q.y.toFloat32 == 0 && q.z.toFloat32 == 0 && q.w.toFloat32 == 0

/-- The direction that is written for `q`: of unit length, the last component not negative, and
the identity where `q` has no length. -/
def wireForm (q : Quat) : Vec3 :=
  let x := q.x.toFloat32
  let y := q.y.toFloat32
  let z := q.z.toFloat32
  let w := q.w.toFloat32
  let lengthSquared := (x * x + z * z) + (y * y + w * w)
  if lengthSquared > 0 then
    let length := lengthSquared.sqrt
    let sign : Float32 := if w / length < 0 then -1 else 1
    ⟨.ofFloat32 (x / length * sign), .ofFloat32 (y / length * sign), .ofFloat32 (z / length * sign)⟩
  else .zero

/-- The rotation whose first three components are `v`: the last one completes unit length, or is
zero if `v` is longer than that. -/
def ofWireForm (v : Vec3) : Quat :=
  let x := v.x.toFloat32
  let y := v.y.toFloat32
  let z := v.z.toFloat32
  let square := 1 - ((x * x + y * y) + z * z)
  ⟨v.x, v.y, v.z, if square > 0 then .ofFloat32 square.sqrt else .zero⟩

def codec : Codec Quat := Vec3.codec.view ofWireForm wireForm

end Quat
end ViewerCircuit
