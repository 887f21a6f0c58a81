import DeltaForest.CommandLine.Folder
import DeltaForest.Examples.LibraryAndShop
import DeltaForest.Main
import DeltaForest.Proofs.Decimal
import DeltaForest.Proofs.Registered
import DeltaForest.Proofs.Regrow
import DeltaForest.Proofs.Travel
import DeltaForest.Proofs.Integrity
import DeltaForest.Proofs.Publishing
import DeltaForest.Proofs.Replication
import DeltaForest.Proofs.AllOrNothing
import DeltaForest.Proofs.Conforming
import DeltaForest.Proofs.Kinds
import DeltaForest.Proofs.OnceEach
import DeltaForest.Proofs.Exported
import DeltaForest.Proofs.Outbound
import DeltaForest.Proofs.Trailing
import DeltaForest.Proofs.Covered
import DeltaForest.Proofs.Recounted
import DeltaForest.Proofs.Canonical
import DeltaForest.Proofs.Displacing
import DeltaForest.Proofs.Fresh
import DeltaForest.Proofs.Spelling
import DeltaForest.Proofs.Undoing
import DeltaForest.Proofs.Retold
import DeltaForest.Proofs.Listed
import DeltaForest.Proofs.RootedTrees
import DeltaForest.Proofs.Admitted
import DeltaForest.Proofs.Corrected
import DeltaForest.Proofs.Filling
import DeltaForest.Proofs.Reclassified
import DeltaForest.Proofs.Releasing
import DeltaForest.Proofs.Ancestry
import DeltaForest.Proofs.LanguageFiles
import DeltaForest.Proofs.Numerals
import DeltaForest.Proofs.Traversal
import DeltaForest.Proofs.Strangers
