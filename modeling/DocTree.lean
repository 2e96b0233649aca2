import DocTree.Log
import DocTree.Main
import DocTree.Outline.Display
import DocTree.Proofs.GroupSizes
import DocTree.Proofs.ImportLines
import DocTree.Proofs.ImportRuns
import DocTree.Proofs.Indentation
import DocTree.Proofs.JavaRanges
import DocTree.Proofs.Neighbours
import DocTree.Proofs.Offset
import DocTree.Proofs.Projection
import DocTree.Proofs.Ranges
import DocTree.Proofs.Recurrence
import DocTree.Proofs.Relocation
import DocTree.Proofs.Replies
import DocTree.Proofs.Signatures
import DocTree.Proofs.TableSearch
import DocTree.Proofs.Tags
import DocTree.Proofs.TextOption
import DocTree.Proofs.ThinnedTexts
import DocTree.Proofs.Tolerance
import DocTree.Proofs.Votes
import DocTree.Settings.File
