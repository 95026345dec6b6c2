import LispMachine.CommandLine
import LispMachine.Main
import LispMachine.Proofs.Artifact.RoundTrip
import LispMachine.Proofs.Locals.Programs
import LispMachine.Proofs.Machine.Safety
import LispMachine.Proofs.Grammar.Parsing
import LispMachine.Proofs.Generator.Limits
import LispMachine.Proofs.Compiler.Limits
import LispMachine.Proofs.Compiler.Depths
import LispMachine.Proofs.Compiler.Artifacts
import LispMachine.Proofs.Machine.Termination
import LispMachine.Proofs.Scoping.Tracking
import LispMachine.Proofs.Scoping.Callees
import LispMachine.Proofs.Scoping.Deciding
import LispMachine.Proofs.Scoping.Bindings
import LispMachine.Proofs.Compiler.Positions
import LispMachine.Proofs.Compiler.Relocation
import LispMachine.Proofs.Printing.RoundTrip
import LispMachine.Proofs.Session.Completeness
import LispMachine.Proofs.Session.Independence
import LispMachine.Proofs.Environment.Histories
import LispMachine.Proofs.Compiler.Renaming
import LispMachine.Proofs.Compiler.Threading
import LispMachine.Proofs.Compiler.Exchange
import LispMachine.Proofs.Machine.CallDepth
import LispMachine.Proofs.Artifact.Damage
import LispMachine.Proofs.Compiler.Globals
import LispMachine.Proofs.Pool.Decoded
import LispMachine.Proofs.Token.Runs
import LispMachine.Proofs.Printing.Doubles
import LispMachine.Proofs.Resolution.Entries
