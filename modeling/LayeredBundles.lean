import LayeredBundles.Archive.Catalog
import LayeredBundles.Bytes.Crc32
import LayeredBundles.Bytes.Sha256
import LayeredBundles.Json.Printer
import LayeredBundles.Json.Reader
import LayeredBundles.Native.Elf
import LayeredBundles.Layout
import LayeredBundles.Archive.Error
import LayeredBundles.Archive.Layer
import LayeredBundles.Config.Error
import LayeredBundles.Config.FromToml
import LayeredBundles.Config.Load
import LayeredBundles.Distribution
import LayeredBundles.Importer
import LayeredBundles.Proofs.Builds
import LayeredBundles.Proofs.Provenance
import LayeredBundles.Proofs.Enclosure
import LayeredBundles.Proofs.LoadOrder
import LayeredBundles.Proofs.Listing
import LayeredBundles.Proofs.Rechecks
import LayeredBundles.Proofs.Readers
import LayeredBundles.Proofs.Leftovers
import LayeredBundles.Proofs.Convergence
import LayeredBundles.Proofs.Isolation
import LayeredBundles.Proofs.Catalogs
import LayeredBundles.Proofs.Subtrees
import LayeredBundles.Proofs.Images
import LayeredBundles.Proofs.Digests
import LayeredBundles.Proofs.Packages
import LayeredBundles.Proofs.Refinement
import LayeredBundles.Proofs.Repetition
import LayeredBundles.Proofs.UnitPaths
import LayeredBundles.Proofs.Faults
import LayeredBundles.Proofs.Setbacks
import LayeredBundles.Proofs.Bystanders
import LayeredBundles.Proofs.SeenFrom
import LayeredBundles.Proofs.Overlays
import LayeredBundles.Proofs.Conversions
import LayeredBundles.Proofs.Merging
import LayeredBundles.Proofs.Locations
import LayeredBundles.Proofs.Owners
import LayeredBundles.Proofs.Positions
import LayeredBundles.Proofs.Destinations
import LayeredBundles.Proofs.Exclusion
import LayeredBundles.Proofs.Clocks
