import CodeGolf.Bytes.Sha256

/-!
# Courses and the targets they run

A course is a challenge. It sees a solution only as a deployed target, decides whether the
target is correct on inputs drawn from a seed, and measures its cost. A deployer turns the
bytes of a solution into such a target. Both are functions that a board is given.
-/

namespace CodeGolf

/-- What a correct solution costs; lower is better. -/
abbrev Cost := UInt64

/-- A point in time, in seconds. -/
abbrev Time := UInt64

/-- The number that a course is known by; a board numbers its courses from one. -/
structure CourseId where
  number : UInt32
  deriving DecidableEq

instance : ToString CourseId := ⟨fun id => toString id.number.toNat⟩

/-- The id after an id, if there is one. -/
def CourseId.succ? (id : CourseId) : Option CourseId :=
  if id.number = 0xFFFFFFFF then none else some ⟨id.number + 1⟩

/-- The position of a course among all courses. -/
def CourseId.rank (id : CourseId) : Nat := id.number.toNat

theorem CourseId.rank_injective {a b : CourseId} (h : a.rank = b.rank) : a = b := by
  cases a
  cases b
  exact congrArg _ (UInt32.toNat_inj.mp h)

/-! ## Targets -/

/-- A solution in the form that a course runs. -/
structure Target where
  address : Digest
  code : Bytes

/-- The target whose address is the digest of its code. -/
def Target.ofCode (code : Bytes) : Target := ⟨sha256 code, code⟩

/-- Why a code was not deployed. -/
inductive DeployError where
  /-- The code is longer than the deployer takes. -/
  | codeTooLarge (size max : Nat)
  | rejected (reason : String)

/-- The wording of a refusal to deploy. -/
def DeployError.message : DeployError → String
  | .codeTooLarge size max => s!"Code too large: {size} bytes (max {max})"
  | .rejected reason => "Deployment rejected: " ++ reason

/-- What turns code into a target. -/
structure Deployer where
  /-- The target of a code, or the reason why there is none. -/
  deploy : Bytes → Except DeployError Target

/-- The deployer that takes any code of at most `max` bytes. -/
def Deployer.limited (max : Nat) : Deployer :=
  ⟨fun code =>
    if max < code.length then .error (.codeTooLarge code.length max)
    else .ok (Target.ofCode code)⟩

/-- The largest code that the standard deployer takes. -/
def Deployer.standardLimit : Nat := 24576

/-- The deployer of a new board. -/
def Deployer.standard : Deployer := .limited standardLimit

/-! ## Courses -/

/-- Why a course did not give a target a cost. -/
inductive CourseError where
  | incorrect (reason : String)
  | execution (reason : String)

/-- The wording of a course's verdict. -/
def CourseError.message : CourseError → String
  | .incorrect reason => "Incorrect solution: " ++ reason
  | .execution reason => "Course execution failed: " ++ reason

/-- A challenge. -/
structure Course where
  name : String
  /-- The cost of a target on the inputs of a seed. -/
  run : Target → UInt64 → Except CourseError Cost

end CodeGolf
