import OsesProject.Lib.Flow
import Mathlib.Order.Lattice
import Mathlib.Algebra.GroupWithZero.Nat

/-!
# The jet engine benchmark (`XenoJetBench.c`)

`defaultParam` and the four functions of the pipeline, statement by statement. The globals are a
store: `Var` names them, the elements of the seven arrays and the locals of the functions among
them, and a function is the list of its statements. `float` is any totally ordered type with any
operations: nothing is assumed of them. `sqroot`, `fpow`, `expo`, `getMach`, `getRayleighLoss` and
the conversion to `int` are parameters, any functions whatever; `getGama`, `getCp` and `getAir` are
those of the source.
-/

namespace OsesProject

open Flow

/-- The arrays have an element for each of 20 stations of the engine. -/
instance neZeroStations : NeZero 20 := ⟨by decide⟩

/-- The globals of `XenoJetBench.h`, and the locals of `getThermo` and `calcPerf`. -/
inductive Var
  | g0 | g0d | gama | tref | abflag | tt4 | tt4d | tt7 | tt7d | p3p2d | p3fp2d | byprat
  | throtl | altd | u0d | fhvd | fhv | u0min | u0max | altmin | altmax | thrmin | thrmax
  | etmin | etmax | cprmin | cprmax | bypmin | bypmax | fprmin | fprmax | t4min | t4max
  | t7min | t7max | pmax | tmin | tmax | weight | Rgas | alt | ts0 | ps0 | a0 | u0 | fsmach
  | q0 | rho0 | cpair | tsout | psout | a8 | a8d | a4 | acore | m2 | afan | mfr | isp | epr
  | etr | npr | snpr | fnet | fgros | dram | sfc | fa | eair | uexit | ues | fnlb | fglb
  | drlb | flflo | pexit | pfexit | a8max | a8rat | arsched | a4p | acap | a2 | dcomp
  | lcomp | dburner | lburn | dturbin | lturb | dnozl | lnoz | dfan | ncomp | nturb
  | sblade | hblade | tblade | xcomp | ncompd
  | trat (i : Fin 20) | tt (i : Fin 20) | prat (i : Fin 20) | pt (i : Fin 20)
  | eta (i : Fin 20) | gam (i : Fin 20) | cp (i : Fin 20)
  | m5 | delhc | delhht | delhf | delhlt | deltc | deltht | deltf | deltlt
  | fac1 | game | cpe | cp3
  deriving DecidableEq, Repr

/-- `engine`, as `init_xeno` chooses it. -/
inductive Engine
  | turbojet
  | afterburner
  | turbofan
  deriving DecidableEq, Repr

/-- The number of an engine. -/
def Engine.number : Engine → Nat
  | .turbojet => 1
  | .afterburner => 2
  | .turbofan => 3

/-- The utilities that are taken as they come. -/
structure Utilities (F : Type) where
  sqroot : F → F
  fpow : F → F → F
  expo : F → F
  getMach : Nat → F → F → F
  getRayleighLoss : F → F → F → F
  /-- `(int)x` -/
  toInt : F → F

variable {F : Type} [LinearOrder F] [Add F] [Sub F] [Mul F] [Div F] [Neg F] [OfScientific F]
  [∀ n, OfNat F n]

/-- `getGama`. -/
def getGama (temp : F) : F :=
  let a := -7.6942651e-13
  let b := 1.3764661e-08
  let c := -7.8185709e-05
  let d := 1.436914
  a * temp * temp * temp + b * temp * temp + c * temp + d

/-- `getCp`. -/
def getCp (temp : F) : F :=
  let a := -4.4702130e-13
  let b := -5.1286514e-10
  let c := 2.8323331e-05
  let d := 0.2245283
  a * temp * temp * temp + b * temp * temp + c * temp + d

variable (m : Utilities F)

/-- `getAir`. -/
def getAir (mach gama2 : F) : F :=
  let fac2 := (gama2 + 1.0) / (2.0 * (gama2 - 1.0))
  let fac1 := m.fpow (1.0 + 0.5 * (gama2 - 1.0) * mach * mach) fac2
  0.50161 * m.sqroot gama2 * mach / fac1

/-- The loop of `defaultParam`. -/
def defaultStations : List (Stmt Var F) :=
  (List.finRange 20).flatMap fun i =>
    [assign (.trat i) fun _ => 1.0,
      assign (.tt i) fun _ => 518.6,
      assign (.prat i) fun _ => 1.0,
      assign (.pt i) fun _ => 14.7,
      assign (.eta i) fun _ => 1.0]

/-- `defaultParam` after its loop. -/
def defaultDesign : List (Stmt Var F) :=
  [assign .tt4d fun _ => 2500,
    assign .tt4 fun g => g .tt4d,
    assign (.tt 4) fun g => g .tt4,
    assign .tt7d fun _ => 2500,
    assign .tt7 fun g => g .tt7d,
    assign (.tt 7) fun g => g .tt7,
    assign .p3p2d fun _ => 8.0,
    assign (.prat 3) fun g => g .p3p2d,
    assign .p3fp2d fun _ => 2.0,
    assign (.prat 13) fun g => g .p3fp2d,
    assign .byprat fun _ => 1.0,
    assign .abflag fun _ => 0,
    assign .fhv fun _ => 18600,
    assign .fhvd fun g => g .fhv,
    assign .acore fun _ => 2.0,
    assign .a2 fun g => g .acore,
    assign .acap fun g => 0.9 * g .a2,
    assign .a8rat fun _ => 0.35,
    assign .a8 fun _ => 0.7,
    assign .a8d fun _ => 0.40,
    assign .arsched fun _ => 0,
    assign .afan fun _ => 2.0,
    assign .a4 fun _ => 0.418,
    assign .u0min fun _ => 0.0,
    assign .u0max fun _ => 1500,
    assign .altmin fun _ => 0.0,
    assign .altmax fun _ => 60000,
    assign .thrmin fun _ => 30,
    assign .thrmax fun _ => 100,
    assign .etmin fun _ => 0.5,
    assign .etmax fun _ => 1.0,
    assign .cprmin fun _ => 1.0,
    assign .cprmax fun _ => 50.0,
    assign .bypmin fun _ => 0.0,
    assign .bypmax fun _ => 10.0,
    assign .fprmin fun _ => 1.0,
    assign .fprmax fun _ => 2.0,
    assign .t4min fun _ => 1000.0,
    assign .t4max fun _ => 3200.0,
    assign .t7min fun _ => 1000.0,
    assign .t7max fun _ => 4000.0,
    assign .a8max fun _ => 0.4,
    assign .pmax fun _ => 20.0,
    assign .tmin fun g => -100.0 + g .tref,
    assign .tmax fun g => 100.0 + g .tref,
    assign .weight fun _ => 1000,
    assign .dfan fun _ => 293.02,
    assign .dcomp fun _ => 293.02,
    assign .dburner fun _ => 515.2,
    assign .dturbin fun _ => 515.2,
    assign .dnozl fun _ => 515.2]

/-- `defaultParam`. -/
def defaultParam : List (Stmt Var F) :=
  assign .tref (fun _ => 459.6) ::
  assign .g0d (fun _ => 32.2) ::
  assign .g0 (fun g => g .g0d) ::
  assign .gama (fun _ => 1.4) ::
  (defaultStations ++ defaultDesign)

/-- The atmosphere at the altitude: the three ranges of `deduceInputs`. -/
def atmosphere : List (Stmt Var F) :=
  [cond (fun g => g .alt < 36152)
      [assign .ts0 fun g => 518.6 - 3.56 * g .alt / 1000,
        assign .ps0 fun g => 2116 * m.fpow (g .ts0 / 518.6) 5.256]
      [],
    -- Stratosphere
    cond (fun g => 36152 ≤ g .alt ∧ g .alt ≤ 82345)
      [assign .ts0 fun _ => 389.98,
        assign .ps0 fun g => 2116 * 0.2236 * m.expo ((36000 - g .alt) / (53.35 * 389.98))]
      [],
    cond (fun g => 82345 ≤ g .alt)
      [assign .ts0 fun g => 389.98 + 1.645 * (g .alt - 82345) / 1000,
        assign .ps0 fun g => 2116 * 0.02456 * m.fpow (g .ts0 / 389.98) (-11.388)]
      []]

/-- `deduceInputs` after the atmosphere. -/
def freeStream : List (Stmt Var F) :=
  [assign .a0 fun g => m.sqroot (g .gama * g .Rgas * g .ts0),
    assign .u0 fun g => g .u0d * 5280 / 3600,
    assign .fsmach fun g => g .u0 / g .a0,
    assign .q0 fun g => g .gama / 2.0 * g .fsmach * g .fsmach * g .ps0,
    cond (fun g => 0.0001 < g .u0)
      [assign .rho0 fun g => g .q0 / (g .u0 * g .u0)]
      [assign .rho0 fun _ => 1.0],
    assign (.tt 0) fun g => g .ts0 * (1.0 + 0.5 * (g .gama - 1.0) * g .fsmach * g .fsmach),
    assign (.pt 0) fun g => g .ps0 * m.fpow (g (.tt 0) / g .ts0) (g .gama / (g .gama - 1.0)),
    assign .ps0 fun g => g .ps0 / 144,
    assign (.pt 0) fun g => g (.pt 0) / 144,
    assign .cpair fun g => getCp (g (.tt 0)),
    assign .tsout fun g => g .ts0 - 459.6,
    assign .psout fun g => g .ps0]

/-- `deduceInputs`. -/
def deduceInputs : List (Stmt Var F) :=
  assign .Rgas (fun _ => 1718) ::
  assign .alt (fun g => g .altd) ::
  (atmosphere m ++ freeStream m)

/-- `getThermo` up to the choice of the engine. -/
def inlet : List (Stmt Var F) :=
  [cond (fun g => 1.0 < g .fsmach)
      [assign (.prat 2) fun g => 1.0 - 0.075 * m.fpow (g .fsmach - 1.0) 1.35]
      [assign (.prat 2) fun _ => 1.0],
    assign (.eta 2) fun g => g (.prat 2),
    -- protection for overwriting input
    cond (fun g => g (.eta 3) < 0.5) [assign (.eta 3) fun _ => 0.5] [],
    cond (fun g => g (.eta 5) < 0.5) [assign (.eta 5) fun _ => 0.5] [],
    assign (.trat 7) fun _ => 1.0,
    assign (.prat 7) fun _ => 1.0,
    assign (.tt 1) fun g => g (.tt 0),
    assign (.tt 2) fun g => g (.tt 1),
    assign (.pt 1) fun g => g (.pt 0),
    assign (.gam 2) fun g => getGama (g (.tt 2)),
    assign (.cp 2) fun g => getCp (g (.tt 2)),
    assign (.pt 2) fun g => g (.pt 1) * g (.prat 2)]

/-- `getThermo` for a turbojet: `engine <= 2`. -/
def turbojet : List (Stmt Var F) :=
  [assign (.prat 3) fun g => g .p3p2d,
    cond (fun g => g (.prat 3) < 0.5) [assign (.prat 3) fun _ => 0.5] [],
    assign .delhc fun g => g (.cp 2) * g (.tt 2) / g (.eta 3) *
      (m.fpow (g (.prat 3)) ((g (.gam 2) - 1.0) / g (.gam 2)) - 1.0),
    assign .deltc fun g => g .delhc / g (.cp 2),
    assign (.pt 3) fun g => g (.pt 2) * g (.prat 3),
    assign (.tt 3) fun g => g (.tt 2) + g .deltc,
    assign (.trat 3) fun g => g (.tt 3) / g (.tt 2),
    assign (.gam 3) fun g => getGama (g (.tt 3)),
    assign (.cp 3) fun g => getCp (g (.tt 3)),
    assign (.tt 4) fun g => g .tt4 * g .throtl / 100.0,
    assign (.gam 4) fun g => getGama (g (.tt 4)),
    assign (.cp 4) fun g => getCp (g (.tt 4)),
    assign (.trat 4) fun g => g (.tt 4) / g (.tt 3),
    assign (.pt 4) fun g => g (.pt 3) * g (.prat 4),
    assign .delhht fun g => g .delhc,
    assign .deltht fun g => g .delhht / g (.cp 4),
    assign (.tt 5) fun g => g (.tt 4) - g .deltht,
    assign (.gam 5) fun g => getGama (g (.tt 5)),
    assign (.cp 5) fun g => getCp (g (.tt 5)),
    assign (.trat 5) fun g => g (.tt 5) / g (.tt 4),
    assign (.prat 5) fun g => m.fpow (1 - g .delhht / g (.cp 4) / g (.tt 4) / g (.eta 5))
      (g (.gam 4) / (g (.gam 4) - 1.0)),
    assign (.pt 5) fun g => g (.pt 4) * g (.prat 5),
    -- fan conditions
    assign (.prat 13) fun _ => 1.0,
    assign (.trat 13) fun _ => 1.0,
    assign (.tt 13) fun g => g (.tt 2),
    assign (.pt 13) fun g => g (.pt 2),
    assign (.gam 13) fun g => g (.gam 2),
    assign (.cp 13) fun g => g (.cp 2),
    assign (.prat 15) fun _ => 1.0,
    assign (.pt 15) fun g => g (.pt 5),
    assign (.trat 15) fun _ => 1.0,
    assign (.tt 15) fun g => g (.tt 5),
    assign (.gam 15) fun g => g (.gam 5),
    assign (.cp 15) fun g => g (.cp 5)]

/-- `getThermo` for a turbofan: `engine == 3`. -/
def turbofan : List (Stmt Var F) :=
  [assign (.prat 13) fun g => g .p3fp2d,
    cond (fun g => g (.prat 13) < 0.5) [assign (.prat 13) fun _ => 0.5] [],
    assign .delhf fun g => g (.cp 2) * g (.tt 2) / g (.eta 13) *
      (m.fpow (g (.prat 13)) ((g (.gam 2) - 1.0) / g (.gam 2)) - 1.0),
    assign .deltf fun g => g .delhf / g (.cp 2),
    assign (.tt 13) fun g => g (.tt 2) + g .deltf,
    assign (.pt 13) fun g => g (.pt 2) * g (.prat 13),
    assign (.trat 13) fun g => g (.tt 13) / g (.tt 2),
    assign (.gam 13) fun g => getGama (g (.tt 13)),
    assign (.cp 13) fun g => getCp (g (.tt 13)),
    assign (.prat 3) fun g => g .p3p2d,
    cond (fun g => g (.prat 3) < 0.5) [assign (.prat 3) fun _ => 0.5] [],
    assign .delhc fun g => g (.cp 13) * g (.tt 13) / g (.eta 3) *
      (m.fpow (g (.prat 3)) ((g (.gam 13) - 1.0) / g (.gam 13)) - 1.0),
    assign .deltc fun g => g .delhc / g (.cp 13),
    assign (.tt 3) fun g => g (.tt 13) + g .deltc,
    assign (.pt 3) fun g => g (.pt 13) * g (.prat 3),
    assign (.trat 3) fun g => g (.tt 3) / g (.tt 13),
    assign (.gam 3) fun g => getGama (g (.tt 3)),
    assign (.cp 3) fun g => getCp (g (.tt 3)),
    assign (.tt 4) fun g => g .tt4 * g .throtl / 100.0,
    assign (.pt 4) fun g => g (.pt 3) * g (.prat 4),
    assign (.gam 4) fun g => getGama (g (.tt 4)),
    assign (.cp 4) fun g => getCp (g (.tt 4)),
    assign (.trat 4) fun g => g (.tt 4) / g (.tt 3),
    assign .delhht fun g => g .delhc,
    assign .deltht fun g => g .delhht / g (.cp 4),
    assign (.tt 5) fun g => g (.tt 4) - g .deltht,
    assign (.gam 5) fun g => getGama (g (.tt 5)),
    assign (.cp 5) fun g => getCp (g (.tt 5)),
    assign (.trat 5) fun g => g (.tt 5) / g (.tt 4),
    assign (.prat 5) fun g => m.fpow (1.0 - g .delhht / g (.cp 4) / g (.tt 4) / g (.eta 5))
      (g (.gam 4) / (g (.gam 4) - 1.0)),
    assign (.pt 5) fun g => g (.pt 4) * g (.prat 5),
    assign .delhlt fun g => (1.0 + g .byprat) * g .delhf,
    assign .deltlt fun g => g .delhlt / g (.cp 5),
    assign (.tt 15) fun g => g (.tt 5) - g .deltlt,
    assign (.gam 15) fun g => getGama (g (.tt 15)),
    assign (.cp 15) fun g => getCp (g (.tt 15)),
    assign (.trat 15) fun g => g (.tt 15) / g (.tt 5),
    assign (.prat 15) fun g => m.fpow (1.0 - g .delhlt / g (.cp 5) / g (.tt 5) / g (.eta 5))
      (g (.gam 5) / (g (.gam 5) - 1.0)),
    assign (.pt 15) fun g => g (.pt 5) * g (.prat 15)]

/-- `getThermo` after the choice of the engine. -/
def nozzle : List (Stmt Var F) :=
  [assign (.tt 7) fun g => g .tt7,
    assign (.prat 6) fun _ => 1.0,
    assign (.pt 6) fun g => g (.pt 15),
    assign (.trat 6) fun _ => 1.0,
    assign (.tt 6) fun g => g (.tt 15),
    assign (.gam 6) fun g => getGama (g (.tt 6)),
    assign (.cp 6) fun g => getCp (g (.tt 6)),
    -- afterburner
    cond (fun g => 0 < g .abflag)
      [assign (.trat 7) fun g => g (.tt 7) / g (.tt 6),
        assign .m5 fun g =>
          m.getMach 0 (getAir m 1.0 (g (.gam 5)) * g .a4 / g .acore) (g (.gam 5)),
        assign (.prat 7) fun g => m.getRayleighLoss (g .m5) (g (.trat 7)) (g (.tt 6))]
      [],
    assign (.tt 7) fun g => g (.tt 6) * g (.trat 7),
    assign (.pt 7) fun g => g (.pt 6) * g (.prat 7),
    assign (.gam 7) fun g => getGama (g (.tt 7)),
    assign (.cp 7) fun g => getCp (g (.tt 7)),
    assign .epr fun g => g (.prat 7) * g (.prat 15) * g (.prat 5) * g (.prat 4) * g (.prat 3) *
      g (.prat 13),
    assign .etr fun g => g (.trat 7) * g (.trat 15) * g (.trat 5) * g (.trat 4) * g (.trat 3) *
      g (.trat 13)]

/-- `getThermo`. -/
def getThermo (engine : Engine) : List (Stmt Var F) :=
  inlet m ++
  [cond (fun _ => engine.number ≤ 2) (turbojet m) [],
    cond (fun _ => engine.number = 3) (turbofan m) []] ++
  nozzle m

/-- `getGeo`. -/
def getGeo (engine : Engine) : List (Stmt Var F) :=
  [cond (fun g => g .afan < g .acore) [assign .afan fun g => g .acore] [],
    -- limits compressor face
    assign .a8max fun g => 0.75 * m.sqroot (g .etr) / g .epr,
    -- mach number to < .5
    cond (fun g => 1.0 < g .a8max) [assign .a8max fun _ => 1.0] [],
    cond (fun g => g .a8max < g .a8rat) [assign .a8rat fun g => g .a8max] [],
    -- dumb down limit - a8 schedule
    cond (fun g => g .arsched = 0) [assign .a8rat fun g => g .a8max] [],
    assign .a8 fun g => g .a8rat * g .acore,
    assign .a8d fun g => g .a8 * g (.prat 7) / m.sqroot (g (.trat 7)),
    -- assumes choked a8 and a4
    assign .a4 fun g => g .a8 * g (.prat 5) * g (.prat 15) * g (.prat 7) /
      m.sqroot (g (.trat 7) * g (.trat 5) * g (.trat 15)),
    assign .a4p fun g => g .a8 * g (.prat 15) * g (.prat 7) /
      m.sqroot (g (.trat 7) * g (.trat 15)),
    assign .acap fun g => 0.9 * g .a2,
    -- size parameters for weight
    assign .ncomp fun g => m.toInt (1.0 + g .p3p2d / 1.5),
    cond (fun g => 15 < g .ncomp) [assign .ncomp fun _ => 15] [],
    assign .sblade fun _ => 0.02,
    assign .hblade fun _ => m.sqroot (2.0 / 3.1415926),
    assign .tblade fun g => 0.2 * g .hblade,
    assign .xcomp fun g => g .ncomp * (g .tblade + g .sblade),
    assign .ncompd fun g => g .ncomp,
    -- fan geometry
    cond (fun _ => engine.number = 3)
      [assign .ncompd fun g => g .ncomp + 3,
        assign .xcomp fun g => g .ncompd * (g .tblade + g .sblade)]
      [],
    assign .lcomp fun g => g .xcomp,
    assign .lburn fun g => g .hblade,
    assign .nturb fun g => 1 + g .ncomp / 4,
    cond (fun _ => engine.number = 3) [assign .nturb fun g => g .nturb + 1] [],
    assign .lturb fun g => g .nturb * (g .tblade + g .sblade),
    assign .lnoz fun g => g .lburn,
    cond (fun _ => engine.number = 2) [assign .lnoz fun g => 3.0 * g .lburn] []]

/-- The thrust of the fan: the part of `calcPerf` for a turbofan. -/
def fanThrust : List (Stmt Var F) :=
  [assign .fac1 fun g => (g .gama - 1.0) / g .gama,
    assign .snpr fun g => g (.pt 13) / g .ps0,
    assign .ues fun g => m.sqroot (2.0 * g .Rgas / g .fac1 * g (.tt 13) * g (.eta 7) *
      (1.0 - m.fpow (1.0 / g .snpr) (g .fac1))),
    assign .m2 fun g => m.getMach 0 (g .eair * (1.0 + g .byprat) * m.sqroot (g (.tt 0) / 518) /
      (g (.prat 2) * g (.pt 0) / 14.7 * g .afan * 144)) (g .gama),
    cond (fun g => g .snpr ≤ 1.893)
      [assign .pfexit fun g => g .ps0]
      [assign .pfexit fun g => 0.52828 * g (.pt 13)],
    assign .fgros fun g => g .fgros +
      (g .byprat * g .ues + (g .pfexit - g .ps0) * 144 * g .byprat * g .acore / g .eair) / g .g0]

/-- `calcPerf` up to the thrusts. -/
def thrust (engine : Engine) : List (Stmt Var F) :=
  [assign .cp3 fun g => getCp (g (.tt 3)),
    assign .g0 fun _ => 32.2,
    assign .ues fun _ => 0.0,
    assign .game fun g => getGama (g (.tt 5)),
    assign .fac1 fun g => (g .game - 1.0) / g .game,
    assign .cpe fun g => getCp (g (.tt 5)),
    -- protection during overwriting
    cond (fun g => g (.eta 7) < 0.8) [assign (.eta 7) fun _ => 0.8] [],
    cond (fun g => g (.eta 4) < 0.8) [assign (.eta 4) fun _ => 0.8] [],
    assign (.pt 8) fun g => g .epr * g (.prat 2) * g (.pt 0),
    assign .eair fun g => getAir m 1.0 (g .game) * 144 * g .a8 * g (.pt 8) / 14.7 /
      m.sqroot (g .etr * g (.tt 0) / 518),
    assign .m2 fun g => m.getMach 0 (g .eair * m.sqroot (g (.tt 0) / 518) /
      (g (.prat 2) * g (.pt 0) / 14.7 * g .acore * 144)) (g .gama),
    assign .npr fun g => g (.pt 8) / g .ps0,
    assign .uexit fun g => m.sqroot (2.0 * g .Rgas / g .fac1 * g .etr * g (.tt 0) * g (.eta 7) *
      (1.0 - m.fpow (1.0 / g .npr) (g .fac1))),
    cond (fun g => g .npr ≤ 1.893)
      [assign .pexit fun g => g .ps0]
      [assign .pexit fun g => 0.52828 * g (.pt 8)],
    assign .fgros fun g => (g .uexit + (g .pexit - g .ps0) * 144 * g .a8 / g .eair) / g .g0,
    -- turbo fan -- added terms for fan flow
    cond (fun _ => engine.number = 3) (fanThrust m) [],
    -- ram drag
    assign .dram fun g => g .u0 / g .g0,
    cond (fun _ => engine.number = 3)
      [assign .dram fun g => g .dram + g .u0 * g .byprat / g .g0] [],
    -- mass flow ratio
    cond (fun g => 0.01 < g .fsmach)
      [assign .mfr fun g =>
        getAir m (g .m2) (g .gama) * g (.prat 2) / getAir m (g .fsmach) (g .gama)]
      [assign .mfr fun _ => 5],
    -- net thrust
    assign .fnet fun g => g .fgros - g .dram,
    -- thrusts in pounds
    assign .fnlb fun g => g .fnet * g .eair,
    assign .fglb fun g => g .fgros * g .eair,
    assign .drlb fun g => g .dram * g .eair]

/-- The fuel and the weight: the rest of `calcPerf`. -/
def fuelAndWeight (engine : Engine) : List (Stmt Var F) :=
  [assign .fa fun g =>
      (g (.trat 4) - 1.0) / (g (.eta 4) * g .fhv / (g .cp3 * g (.tt 3)) - g (.trat 4)) +
      (g (.trat 7) - 1.0) / (g .fhv / (g .cpe * g (.tt 15)) - g (.trat 7)),
    cond (fun g => 0.0 < g .fnet)
      [assign .sfc fun g => 3600 * g .fa / g .fnet,
        cond (fun g => g .sfc < 0) [assign .sfc fun _ => 0.0] [],
        assign .flflo fun g => g .sfc * g .fnlb,
        assign .isp fun g => g .fnlb / g .flflo * 3600]
      [assign .fnlb fun _ => 0.0,
        assign .flflo fun _ => 0.0,
        assign .sfc fun _ => 0.0,
        assign .isp fun _ => 0.0],
    -- weight calculation
    cond (fun _ => engine.number = 1)
      [assign .weight fun g => 0.12754 * m.sqroot (g .acore * g .acore * g .acore) *
        (g .dcomp * g .lcomp + g .dburner * g .lburn + g .dturbin * g .lturb +
          g .dnozl * g .lnoz)]
      [],
    cond (fun _ => engine.number = 2)
      [assign .weight fun g => 0.08533 * m.sqroot (g .acore * g .acore * g .acore) *
        (g .dcomp * g .lcomp + g .dburner * g .lburn + g .dturbin * g .lturb +
          g .dnozl * g .lnoz)]
      [],
    cond (fun _ => engine.number = 3)
      [assign .weight fun g => 0.08955 * g .acore *
        ((1.0 + g .byprat) * g .dfan * 4.0 + g .dcomp * (g .ncomp - 3) + g .dburner +
          g .dturbin * g .nturb + g .dburner * 2.0) * m.sqroot (g .acore / 6.965)]
      []]

/-- `calcPerf`. -/
def calcPerf (engine : Engine) : List (Stmt Var F) := thrust m engine ++ fuelAndWeight m engine

/-- The pipeline, in the order of its threads. -/
def pipeline (engine : Engine) : List (Stmt Var F) :=
  deduceInputs m ++ getThermo m engine ++ getGeo m engine ++ calcPerf m engine

/-- The inputs of a reading. -/
structure Reading (F : Type) where
  u0d : F
  altd : F
  throtl : F

/-- The snapshot of `init_xeno`. -/
def takeInputs (x : Reading F) : List (Stmt Var F) :=
  [assign .u0d fun _ => x.u0d, assign .altd fun _ => x.altd, assign .throtl fun _ => x.throtl]

/-- One round of the loop of `init_xeno`, up to the results. -/
def evaluate (engine : Engine) (x : Reading F) : List (Stmt Var F) :=
  takeInputs x ++ pipeline m engine

/-- `results[0]` to `results[13]`. -/
def benchResults (g : Var → F) : List F :=
  [g .u0d, g .altd, g .throtl, g .fsmach, g .psout, g .tsout, g .fnlb, g .fglb, g .drlb, g .flflo,
    g .sfc, g .eair, g .weight, g .fnlb / g .weight]

end OsesProject
