import TreeListing.Main
import TreeListing.Proofs.Batch.Kept
import TreeListing.Proofs.CommandLine.Modes
import TreeListing.Proofs.CommandLine.Reports
import TreeListing.Proofs.Cursor.Steps
import TreeListing.Proofs.Language.Detection
import TreeListing.Proofs.Listing.Order
import TreeListing.Proofs.Listing.Subtree
import TreeListing.Proofs.Settings.Effective
import TreeListing.Proofs.Settings.Resolution
import TreeListing.Proofs.Settings.Written
import TreeListing.Proofs.Walk.Bookkeeping
import TreeListing.Proofs.Walk.Onward
import TreeListing.Proofs.Walk.Tour
import TreeListing.Proofs.Work.Stages
