import RichStyle.Main
import RichStyle.Proofs.History
import RichStyle.Proofs.Recompile
import RichStyle.Proofs.Roundtrip
import RichStyle.Session.Script
import RichStyle.Proofs.Blocks
import RichStyle.Proofs.Lossless
import RichStyle.Proofs.Settled
import RichStyle.Proofs.Themes
import RichStyle.Proofs.Places
import RichStyle.Proofs.Seams
import RichStyle.Proofs.Concat
import RichStyle.Proofs.ImportLines
import RichStyle.Proofs.Grammar
import RichStyle.Proofs.Merging
import RichStyle.Proofs.Interleavings
import RichStyle.Proofs.Hosting
import RichStyle.Proofs.Bundling
import RichStyle.Proofs.Modes
import RichStyle.Proofs.Segments
import RichStyle.Proofs.LineFeeds
import RichStyle.Proofs.Origins
import RichStyle.Proofs.Entries
import RichStyle.Proofs.ThemeRules
import RichStyle.Proofs.Openings
import RichStyle.Proofs.Commands
import RichStyle.Proofs.Paths
import RichStyle.Proofs.Warnings
import RichStyle.Proofs.Deliveries
import RichStyle.Proofs.Spacing
import RichStyle.Proofs.Stripping
import RichStyle.Proofs.ThemeBlocks
import RichStyle.Proofs.ImportTokens
import RichStyle.Proofs.LoweredValues
import RichStyle.Proofs.Outcomes
import RichStyle.Proofs.Extraction
import RichStyle.Proofs.Numerals
import RichStyle.Proofs.Offsets
import RichStyle.Proofs.Rounding
import RichStyle.Proofs.Shapes
import RichStyle.Proofs.Decimals
import RichStyle.Proofs.Depths
import RichStyle.Proofs.Scripts
