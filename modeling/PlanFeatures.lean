import PlanFeatures.Store.Reader
import PlanFeatures.Store.Tree
import PlanFeatures.Store.Printer
import PlanFeatures.Meaning.Sized
import PlanFeatures.Generation.Run
import PlanFeatures.Generation.ConfigText
import PlanFeatures.Proofs.Meaning.BitSets
import PlanFeatures.Proofs.Meaning.Correctness
import PlanFeatures.Proofs.Meaning.Renumbering
import PlanFeatures.Proofs.Generation.Deduplication
import PlanFeatures.Proofs.Generation.Exhaustive
import PlanFeatures.Proofs.Generation.Relaxation
import PlanFeatures.Proofs.Domain.Names
import PlanFeatures.Proofs.Store.Known
import PlanFeatures.Proofs.Store.Printing
import PlanFeatures.Proofs.Store.History
import PlanFeatures.Proofs.Generation.Agenda
import PlanFeatures.Proofs.Generation.Listing
import PlanFeatures.Proofs.Generation.Unrepeated
import PlanFeatures.Proofs.Generation.Independence
import PlanFeatures.Proofs.Generation.Enlargement
import PlanFeatures.Proofs.Generation.Resampling
import PlanFeatures.Proofs.Generation.Gating
import PlanFeatures.Proofs.Generation.Budgets
import PlanFeatures.Proofs.Generation.Accounting
import PlanFeatures.Proofs.Generation.Batching
import PlanFeatures.Proofs.Strict.Run
import PlanFeatures.Proofs.Strict.Reader
import PlanFeatures.Proofs.Term.Grammar
import PlanFeatures.Proofs.Store.Permanence
import PlanFeatures.Proofs.Generation.Idle
import PlanFeatures.Proofs.Sample.Registering
import PlanFeatures.Proofs.Grammar.TotalOrder
import PlanFeatures.Proofs.Store.TotalOrder
import PlanFeatures.Domain.Tables
import PlanFeatures.Proofs.Domain.Consistency
import PlanFeatures.Proofs.Domain.States
import PlanFeatures.Proofs.Meaning.Counting
import PlanFeatures.Proofs.Store.Hashing
import PlanFeatures.Proofs.Store.Identification
import PlanFeatures.Proofs.Generation.ConfigFiles
