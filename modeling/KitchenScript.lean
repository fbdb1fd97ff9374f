import KitchenScript.Main
import KitchenScript.Proofs.Grammar.Programs
import KitchenScript.Proofs.Joining.Sources
import KitchenScript.Proofs.Kitchen.Atomicity
import KitchenScript.Proofs.Kitchen.Conservation
import KitchenScript.Proofs.Kitchen.Independence
import KitchenScript.Proofs.Kitchen.Processing
import KitchenScript.Proofs.Kitchen.Products
import KitchenScript.Proofs.Layout.Breaks
import KitchenScript.Proofs.Layout.Irrelevance
import KitchenScript.Proofs.Program.Diagnostics
import KitchenScript.Proofs.Program.Progress
import KitchenScript.Proofs.Program.Quotes
import KitchenScript.Proofs.Program.Statistics
import KitchenScript.Proofs.Puzzle.Files
import KitchenScript.Proofs.Puzzle.Grading
import KitchenScript.Proofs.Puzzle.Saving
import KitchenScript.Proofs.Recovery.Sources
import KitchenScript.Proofs.Run.Arithmetic
import KitchenScript.Proofs.Run.Arity
import KitchenScript.Proofs.Run.Budget
import KitchenScript.Proofs.Run.Lists
import KitchenScript.Proofs.Run.Replay
import KitchenScript.Proofs.Run.Scope
import KitchenScript.Proofs.Run.Untouched
import KitchenScript.Proofs.Signs.Runs
import KitchenScript.Proofs.Token.Coverage
import KitchenScript.Proofs.Token.Printing
import KitchenScript.Proofs.Token.Seam
