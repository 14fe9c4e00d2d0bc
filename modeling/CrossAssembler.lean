import CrossAssembler.Main
import CrossAssembler.Session
import CrossAssembler.Proofs.Fallible
import CrossAssembler.Proofs.Keywords
import CrossAssembler.Proofs.Grammar
import CrossAssembler.Proofs.Placement
import CrossAssembler.Proofs.Written
import CrossAssembler.Proofs.Resolution
import CrossAssembler.Proofs.Detour
import CrossAssembler.Proofs.GapCorrection
import CrossAssembler.Proofs.Tiling
import CrossAssembler.Proofs.JumpResolution
import CrossAssembler.Proofs.LayoutErrors
import CrossAssembler.Proofs.Appending
import CrossAssembler.Proofs.Decoding
import CrossAssembler.Proofs.LayoutCache
import CrossAssembler.Proofs.FirstBadLine
import CrossAssembler.Proofs.OctalNumerals
import CrossAssembler.Proofs.Lines
import CrossAssembler.Proofs.JoinedSources
import CrossAssembler.Proofs.UploadImage
import CrossAssembler.Proofs.SourceRoundTrip
import CrossAssembler.Proofs.Renaming
import CrossAssembler.Proofs.LetterCase
import CrossAssembler.Proofs.NumeralValues
import CrossAssembler.Proofs.Refusals
import CrossAssembler.Proofs.PlainNames
import CrossAssembler.Proofs.Respacing
import CrossAssembler.Proofs.InsertedLabel
import CrossAssembler.Proofs.Relayout
import CrossAssembler.Proofs.Residue
import CrossAssembler.Proofs.DeskWork
import CrossAssembler.Proofs.FileTrees
import CrossAssembler.Proofs.Expectations
import CrossAssembler.Proofs.SuiteOrder
import CrossAssembler.Proofs.AsmEffects
import CrossAssembler.Proofs.ListingMarkup
import CrossAssembler.Proofs.ListingImage
import CrossAssembler.Proofs.Markup
import CrossAssembler.Proofs.ListingTags
