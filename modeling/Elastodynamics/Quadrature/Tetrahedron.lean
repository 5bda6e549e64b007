import Elastodynamics.Quadrature.Rule
/-!
Rules of the reference tetrahedron in floating point arithmetic, up to strength ten. Each rule is a
union of orbits under the symmetries of the tetrahedron, and an orbit is given by the barycentric
coordinates of one of its points and the share of its points in the volume.
-/
namespace Elastodynamics.Quadrature.Tetrahedron

/-- Points of equal weight that the symmetries of the tetrahedron map to each other. -/
inductive Orbit where
  /-- The midpoint. -/
  | center (share : Float)
  /-- The four points with three barycentric coordinates equal to `a`. -/
  | axis (share a : Float)
  /-- The six points with two coordinates equal to `a` and the other two equal to each other. -/
  | edge (share a : Float)
  /-- The twelve points with two coordinates equal to `a` and one equal to `b`. -/
  | plane (share a b : Float)

namespace Orbit

/-- The part of the volume that each point of the orbit stands for. -/
def share : Orbit → Float
  | center s => s
  | axis s _ => s
  | edge s _ => s
  | plane s _ _ => s

/-- The point with the given barycentric coordinates for the vertices other than `(-1, -1, -1)`. -/
def place (a b c : Float) : Vec3 Float := ⟨2.0 * a - 1.0, 2.0 * b - 1.0, 2.0 * c - 1.0⟩

def points : Orbit → List (Vec3 Float)
  | center _ => [place 0.25 0.25 0.25]
  | axis _ a =>
    let d := 1.0 - 3.0 * a
    [place a a a, place d a a, place a d a, place a a d]
  | edge _ a =>
    let c := 0.5 - a
    [place a c c, place c a c, place c c a, place c a a, place a c a, place a a c]
  | plane _ a b =>
    let d := 1.0 - 2.0 * a - b
    [place a b d, place a d b, place b a d, place d a b, place b d a, place d b a,
     place a a b, place a b a, place b a a, place a a d, place a d a, place d a a]

end Orbit

/-- The rule made of the given orbits, with weights that sum to the volume. -/
def ofOrbits (orbits : List Orbit) : Rule Float where
  weights := orbits.flatMap fun o => o.points.map fun _ => o.share * 4.0 / 3.0
  points := orbits.flatMap Orbit.points

/-- The eight points of the rule of strength three: two orbits, in a fixed order. -/
def eightPoint : Rule Float :=
  let near (p q : Float) : List (Vec3 Float) := [⟨p, p, q⟩, ⟨p, q, p⟩, ⟨q, p, p⟩, ⟨p, p, p⟩]
  { weights := List.replicate 4 0.18162379004944980942 ++ List.replicate 4 0.15170954328388352390
    points := near (-0.34367339496723662642) (-0.96897981509829012074)
      ++ near (-0.78390550020314279176) 0.35171650060942837530 }

def fourteenPoint : Rule Float := ofOrbits
  [.axis 0.07349304311636194954 0.09273525031089122640,
   .axis 0.11268792571801585080 0.31088591926330060980,
   .edge 0.04254602077708146644 0.45449629587435035051]

def twentyFourPoint : Rule Float := ofOrbits
  [.axis 0.05535718154365472210 0.32233789014227551034,
   .axis 0.01007721105532064295 0.04067395853461135312,
   .axis 0.03992275025816749210 0.21460287125915202929,
   .plane 0.04821428571428571429 0.06366100187501752530 0.26967233145831580803]

def thirtyFivePoint : Rule Float := ofOrbits
  [.center 0.09548528946413084886,
   .axis 0.04232958120996702908 0.31570114977820279942,
   .edge 0.03189692783285757993 0.44951017740160363124,
   .plane 0.00811077082990334157 0.02126547254148324599 0.81083024109854856112,
   .plane 0.03720713072833462137 0.18883383102600104774 0.04716070036099788104]

def fortySixPoint : Rule Float := ofOrbits
  [.axis 0.04944895249841931951 0.18610951075423077299,
   .axis 0.00825790779923916070 0.04384287646910787256,
   .axis 0.04289679842541098036 0.31394413579813464985,
   .axis 0.02843295844644168664 0.11218033293319509970,
   .edge 0.03667546070631074969 0.43489800339621756869,
   .plane 0.00715391492135118712 0.02130287785099770675 0.24172241482553143316,
   .plane 0.01482948233565638897 0.20396591334467123054 0.00608985211153835934]

def fiftyNinePoint : Rule Float := ofOrbits
  [.center 0.05688917493738919962,
   .axis 0.02257429484091507134 0.16352711129129482754,
   .axis 0.00810153912157691233 0.04518883317654344586,
   .axis 0.00007068729785360281 0.00179207935183448366,
   .axis 0.02955392098583878324 0.32237866640896199462,
   .edge 0.03787446532784656953 0.38776857656024372930,
   .plane 0.02106679776410028771 0.18258186048394958269 0.03538583637876818288,
   .plane 0.01004706048301580374 0.03335517698737526284 0.71855201963906685845,
   .plane 0.00844133042878340059 0.45864677996740632106 0.08007275726312252266]

def eightyOnePoint : Rule Float := ofOrbits
  [.center 0.04568224727164653324,
   .axis 0.00050659975897847346 0.00944572689288010692,
   .axis 0.02541712865362168554 0.31327332753358331650,
   .plane 0.01237327683643063424 0.17579511919790532610 0.02079743664763911095,
   .plane 0.00534847627652093295 0.09278319163503569477 0.64896765435873250813,
   .plane 0.01191594835436862744 0.41025151212931137268 0.16400896870082578167,
   .plane 0.01024718531139018548 0.03282740283928205958 0.33913400080446776873,
   .plane 0.00616549413039161729 0.03000455942458493035 0.12709148320983411459,
   .plane 0.02483485568072740518 0.12434418686073421921 0.28212574295832048001]

/-- The smallest tabulated rule that integrates polynomials of degree `strength` exactly. -/
def rule (strength : Nat) : Except Error (Rule Float) :=
  if strength ≤ 1 then .ok .tetrahedronMidpoint
  else if strength ≤ 2 then .ok .tetrahedronDegreeTwo
  else if strength ≤ 3 then .ok eightPoint
  else if strength ≤ 5 then .ok fourteenPoint
  else if strength ≤ 6 then .ok twentyFourPoint
  else if strength ≤ 7 then .ok thirtyFivePoint
  else if strength ≤ 8 then .ok fortySixPoint
  else if strength ≤ 9 then .ok fiftyNinePoint
  else if strength ≤ 10 then .ok eightyOnePoint
  else .error .noRuleAvailable

end Elastodynamics.Quadrature.Tetrahedron
