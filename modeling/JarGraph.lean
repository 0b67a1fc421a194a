import JarGraph.Analyser.History
import JarGraph.Artifact.Manifest.Writing
import JarGraph.Artifact.Registry.Request
import JarGraph.ClassFile.Description.Meaning
import JarGraph.ClassFile.Description.Writing
import JarGraph.ClassFile.ModifiedUtf8.Group
import JarGraph.Dependency.Edit
import JarGraph.FileSystem.WellFormed
import JarGraph.Main
import JarGraph.Proofs.Analyser.Reordering
import JarGraph.Proofs.Artifact.Declared
import JarGraph.Proofs.Artifact.EitherOrder
import JarGraph.Proofs.Artifact.Hints
import JarGraph.Proofs.Artifact.Layout
import JarGraph.Proofs.Artifact.Manifest.Wrapping
import JarGraph.Proofs.Artifact.Packages
import JarGraph.Proofs.Artifact.Report.RoundTrip
import JarGraph.Proofs.Artifact.Sets
import JarGraph.Proofs.Artifact.SharedRow
import JarGraph.Proofs.Artifact.WrittenForms
import JarGraph.Proofs.ClassFile.Description.RoundTrip
import JarGraph.Proofs.ClassFile.Extent
import JarGraph.Proofs.Extraction.Inventory
import JarGraph.Proofs.Ordered
import JarGraph.Proofs.Run.Checked
import JarGraph.Proofs.Run.Failing
import JarGraph.Proofs.Run.Listed
import JarGraph.Proofs.Run.Skipping
import JarGraph.Proofs.Run.Spelling
import JarGraph.Proofs.Signature.Reading
import JarGraph.Proofs.Walk.Conflicts
import JarGraph.Proofs.Walk.Listing
import JarGraph.Signature.Grammar
import JarGraph.Walk.Contents
import JarGraph.Walk.Transcript
import JarGraph.Proofs.Descriptor.Reading
import JarGraph.Glob.Meaning
import JarGraph.Proofs.ClassFile.ModifiedUtf8.Spelling
import JarGraph.Proofs.Glob.Matching
import JarGraph.Proofs.Glob.Reading
import JarGraph.Proofs.ProvidedClasses
import JarGraph.Proofs.PathFilter
import JarGraph.Proofs.FileSystem.Scanning
import JarGraph.Proofs.FileSystem.AllOrNothing
import JarGraph.Proofs.Extraction.Names
import JarGraph.Proofs.Run.Naming
import JarGraph.Proofs.ClassFile.Visiting
import JarGraph.Proofs.Dependency.Editing
import JarGraph.Proofs.Analyser.Unresolved
import JarGraph.Proofs.FileSystem.Canonical
import JarGraph.Proofs.Run.Again
import JarGraph.Proofs.ByPosition
import JarGraph.Proofs.ClassFile.Marks.Spending
import JarGraph.Proofs.Run.Cleaning
import JarGraph.Proofs.FileSystem.Edits
