import CodeGolf.Admin
import CodeGolf.Bytecode
import CodeGolf.Config
import CodeGolf.Par

/-!
# Boards

A board is a leaderboard of courses with everything that it decides by: its settings, its
administrators, the rule that code has to pass, the deployer, the courses, the pars and the
commitments. This module has the type, what a board reports about the operations that change
it, and why it refuses one.
-/

namespace CodeGolf

/-- A leaderboard. -/
structure Board where
  config : Config
  admin : AdminPolicy
  /-- The rule that code has to pass, for all courses. -/
  validator : Validator
  deployer : Deployer
  registry : Registry
  pars : Pars
  ledger : Ledger

/-- A board without courses, with the standard validator and the standard deployer. -/
def Board.new (config : Config) (admin : AdminPolicy) : Board where
  config := config
  admin := admin
  validator := .pushAware
  deployer := .standard
  registry := .empty
  pars := .empty
  ledger := .empty config.minCommitAge config.singleUseCommitments

/-- The board with another validator. -/
def Board.withValidator (b : Board) (validator : Validator) : Board := { b with validator }

/-- The board with another deployer. -/
def Board.withDeployer (b : Board) (deployer : Deployer) : Board := { b with deployer }

/-! ## Reports -/

/-- An accepted submission. -/
structure Submission where
  course : CourseId
  /-- Who sent the solution, and owns the commitment if there was one. -/
  submitter : Player
  recipient : Player
  cost : Cost
  titleChanged : Bool
  previousHolder : Option Player
  leadingCost : Cost
  /-- What became of the recipient's par. -/
  par : ParChange
  /-- Whether the solution was committed before. -/
  revealed : Bool

/-- What listeners are told once an operation is done. -/
inductive Event where
  | courseAdded (course : CourseId) (name : String)
  | allowListUpdated (course : CourseId) (allowed : OpcodeSet)
  | validatorReplaced (name : String)
  | committed (key : Digest) (player : Player)
  /-- A title moved; whoever held it before was not asked. -/
  | titleTransferred (course : CourseId) (previous : Option Player) (holder : Player)
    (cost : Cost)
  | submitted (result : Submission)

/-- What is told of a submission: first the title if it moved, then the submission. -/
def Submission.events (s : Submission) : List Event :=
  if s.titleChanged then
    [.titleTransferred s.course s.previousHolder s.recipient s.cost, .submitted s]
  else [.submitted s]

/-! ## Refusals -/

/-- Why a board refuses an operation. -/
inductive BoardError where
  | registry (reason : RegistryError)
  | commitment (reason : CommitError)
  /-- The solution is longer than the settings allow. -/
  | solutionTooLarge (size : Nat) (max : UInt64)
  | invalidSolution (id : CourseId) (verdict : Verdict)
  | deployment (reason : DeployError)
  | course (reason : CourseError)

/-- The wording of a refusal. -/
def BoardError.message : BoardError → String
  | .registry reason => reason.message
  | .commitment reason => reason.message
  | .solutionTooLarge size max => s!"Solution too large: {size} bytes (max {max})"
  | .invalidSolution id verdict =>
    "Invalid solution for course " ++ toString id ++ ": " ++ verdict.message
  | .deployment reason => "Deployment failed: " ++ reason.message
  | .course reason => reason.message

end CodeGolf
